import Mathlib.Data.Finset.Basic
import Mathlib.Logic.Function.Basic
import Zing.Lib.Condition
import Zing.Lib.System

set_option autoImplicit false

/-! # The thread pool

A started `ThreadPool` with its worker threads and any number of other threads that call
`run()`; tasks may call it too. One of the other threads calls `stop()`. An action is what a
thread does while it holds `mutex_`, or between that: reading `running_` in the loop of a
worker, starting a task, returning from it. A task that throws ends the process, and with it
the run.

`tasks_accounted` is the result about all runs. It rests on `Covered`, the invariant of the
queue and the two condition variables.
-/

namespace Zing.Base

open Zing.Lib

namespace ThreadPool

variable {T F : Type}

/-- A `std::function`, which may be empty. -/
abbrev Task (F : Type) := Option F

inductive Failure
  /-- The assertion in `run`, behind the loop. -/
  | notFull
  /-- An empty task is called. -/
  | badFunctionCall
deriving DecidableEq, Repr

/-- Where a worker is in `runInThread`. -/
inductive Worker
  /-- In `threadInitCallback_`. -/
  | initializing
  /-- In front of `while (running_)`. -/
  | condition
  /-- In `take`. -/
  | taking
  /-- In front of `if (task)`. -/
  | took
  /-- In the task. -/
  | executing
  | exited
deriving DecidableEq, Repr

/-- How far `stop` is. -/
inductive Stop (T : Type)
  | notCalled
  /-- `t` joins the threads. -/
  | joining (t : T)
  | returned
deriving DecidableEq

structure State (T F : Type) where
  threads : Finset T
  queue : List (Task F)
  maxQueueSize : ℕ
  running : Bool
  notEmpty : Condition T
  notFull : Condition T
  worker : T → Worker
  /-- The variable `task` of a worker. -/
  task : T → Task F
  stop : Stop T
  /-- The argument of a call of `run` that waits. -/
  waiting : T → Option (Task F)
  /-- The tasks of the calls of `run` that have returned while the pool was running. -/
  accepted : List (Task F)
  /-- The tasks that were popped, with the worker. -/
  taken : List (T × Task F)
  /-- What has been called, with the thread. -/
  started : List (T × F)

inductive Action (T F : Type)
  /-- `run(task)` by `t`; `choice` is the thread that is notified. -/
  | run (t : T) (task : Task F) (choice : Option T)
  /-- `wait()` returns in a call of `run`. -/
  | resumeRun (t : T) (choice : Option T)
  /-- `threadInitCallback_` returns. -/
  | initialized (w : T)
  /-- `w` reads `running_` in its loop. -/
  | condition (w : T)
  | take (w : T) (choice : Option T)
  /-- `wait()` returns in a call of `take`. -/
  | resumeTake (w : T) (choice : Option T)
  /-- `if (task)`, and the task is called. -/
  | call (w : T)
  /-- The task returns. -/
  | taskReturns (w : T)
  /-- `stop()` by `t`, up to where `mutex_` is unlocked. -/
  | stop (t : T)
  /-- All threads have been joined. -/
  | joined
  /-- A worker wakes up without a notification. -/
  | wakeTake (w : T)
  /-- A caller of `run` wakes up without a notification. -/
  | wakeRun (t : T)

def State.isFull (s : State T F) : Bool :=
  decide (s.maxQueueSize > 0) && decide (s.queue.length ≥ s.maxQueueSize)

variable [DecidableEq T]

/-- From the condition of the loop in `run` on. -/
def State.push (s : State T F) (t : T) (task : Task F) (choice : Option T) :
    Option (Except Failure (State T F)) :=
  if s.isFull = true ∧ s.running = true then
    some (.ok { s with
      notFull := s.notFull.wait t, waiting := Function.update s.waiting t (some task) })
  else if s.running = false then
    some (.ok { s with waiting := Function.update s.waiting t none })
  else if s.notEmpty.CanNotify choice then
    some (do
      check (s.isFull = false) .notFull
      return { s with
        queue := s.queue ++ [task], notEmpty := s.notEmpty.notify choice
        waiting := Function.update s.waiting t none })
  else none

/-- `run(task)`. Without threads the caller calls the task itself. -/
def State.run (s : State T F) (t : T) (task : Task F) (choice : Option T) :
    Option (Except Failure (State T F)) :=
  if s.threads = ∅ then
    match task with
    | some f => some (.ok { s with started := s.started ++ [(t, f)] })
    | none => some (.error .badFunctionCall)
  else s.push t task choice

/-- From the condition of the loop in `take` on. -/
def State.pop (s : State T F) (w : T) (choice : Option T) :
    Option (Except Failure (State T F)) :=
  match s.queue with
  | [] =>
      if s.running = true then some (.ok { s with notEmpty := s.notEmpty.wait w })
      else some (.ok { s with
        worker := Function.update s.worker w .took, task := Function.update s.task w none })
  | task :: queue =>
      let s := { s with
        queue := queue, worker := Function.update s.worker w .took
        task := Function.update s.task w task, taken := s.taken ++ [(w, task)] }
      if s.maxQueueSize > 0 then
        if s.notFull.CanNotify choice then
          some (.ok { s with notFull := s.notFull.notify choice })
        else none
      else some (.ok s)

/-- The thread may call `run`: it is in a task or in the init callback, or no worker. -/
def State.InUserCode (s : State T F) (t : T) : Prop :=
  s.waiting t = none ∧
    if t ∈ s.threads then s.worker t = .initializing ∨ s.worker t = .executing
    else s.stop ≠ .joining t

instance (s : State T F) (t : T) : Decidable (s.InUserCode t) :=
  inferInstanceAs (Decidable (_ ∧ _))

/-- `w` goes on to the loop condition. -/
def State.toCondition (s : State T F) (w : T) : State T F :=
  { s with worker := Function.update s.worker w .condition }

omit [DecidableEq T] in
/-- `run(task)` by `t` has left the pool in the state `u`. The task is accepted if the pool has
threads and runs, and the call does not wait. -/
def State.runLeft (s : State T F) (t : T) (task : Task F) (u : State T F) : State T F :=
  if s.threads.Nonempty ∧ s.running = true ∧ (u.waiting t).isNone = true then
    { u with accepted := u.accepted ++ [task] }
  else u

def step (s : State T F) : Action T F → Option (Except Failure (State T F))
  | .run t task choice =>
      if s.InUserCode t then
        (s.run t task choice).map (Except.map (s.runLeft t task))
      else none
  | .resumeRun t choice =>
      match s.waiting t with
      | some task =>
          if s.notFull.CanResume t then
            ({ s with notFull := s.notFull.resume t }.push t task choice).map
              (Except.map (s.runLeft t task))
          else none
      | none => none
  | .initialized w =>
      if s.worker w = .initializing ∧ s.waiting w = none then some (.ok (s.toCondition w))
      else none
  | .condition w =>
      if s.worker w = .condition then
        some (.ok { s with
          worker := Function.update s.worker w (if s.running = true then .taking else .exited) })
      else none
  | .take w choice =>
      if s.worker w = .taking ∧ ¬ s.notEmpty.Waiting w then s.pop w choice else none
  | .resumeTake w choice =>
      if s.notEmpty.CanResume w then
        { s with notEmpty := s.notEmpty.resume w }.pop w choice
      else none
  | .call w =>
      if s.worker w = .took then
        match s.task w with
        | some f =>
            some (.ok { s with
              worker := Function.update s.worker w .executing
              started := s.started ++ [(w, f)] })
        | none => some (.ok (s.toCondition w))
      else none
  | .taskReturns w =>
      if s.worker w = .executing ∧ s.waiting w = none then some (.ok (s.toCondition w))
      else none
  | .stop t =>
      if s.stop = .notCalled ∧ t ∉ s.threads ∧ s.waiting t = none then
        some (.ok { s with
          running := false, notEmpty := s.notEmpty.notifyAll, notFull := s.notFull.notifyAll
          stop := .joining t })
      else none
  | .joined =>
      if s.stop ≠ .notCalled ∧ ∀ w ∈ s.threads, s.worker w = .exited then
        some (.ok { s with stop := .returned })
      else none
  | .wakeTake w =>
      if w ∈ s.notEmpty.blocked then some (.ok { s with notEmpty := s.notEmpty.wake w })
      else none
  | .wakeRun t =>
      if t ∈ s.notFull.blocked then some (.ok { s with notFull := s.notFull.wake t })
      else none

/-- Behind `start`, with the threads not yet running. -/
def start (threads : Finset T) (maxQueueSize : ℕ) : State T F where
  threads := threads
  queue := []
  maxQueueSize := maxQueueSize
  running := true
  notEmpty := .idle
  notFull := .idle
  worker := fun t => if t ∈ threads then .initializing else .exited
  task := fun _ => none
  stop := .notCalled
  waiting := fun _ => none
  accepted := []
  taken := []
  started := []

/-- The runs of a pool that was started with at least one thread. -/
def runs : System (State T F) (Action T F) Failure where
  init := fun s => ∃ threads : Finset T, threads.Nonempty ∧ ∃ maxQueueSize,
    s = start threads maxQueueSize
  step := step

/-! ## Who has taken and started what -/

/-- The functions of the tasks that `w` has taken. -/
def State.takenBy (s : State T F) (w : T) : List F :=
  s.taken.filterMap fun p => if p.1 = w then p.2 else none

/-- What `w` has called. -/
def State.startedBy (s : State T F) (w : T) : List F :=
  s.started.filterMap fun p => if p.1 = w then some p.2 else none

/-- What `w` has taken and not yet called. -/
def State.holds (s : State T F) (w : T) : List F :=
  if s.worker w = .took then (s.task w).toList else []

variable {s : State T F} {a : Action T F} {items slots : ℕ}

theorem takenBy_snoc {t : State T F} {w u : T} {task : Task F}
    (h : t.taken = s.taken ++ [(w, task)]) :
    t.takenBy u = s.takenBy u ++ if w = u then task.toList else [] := by
  rw [State.takenBy, h, List.filterMap_append]
  congr 1
  by_cases hu : w = u
  · cases task <;> simp [hu]
  · simp [hu]

theorem startedBy_snoc {t : State T F} {w u : T} {f : F}
    (h : t.started = s.started ++ [(w, f)]) :
    t.startedBy u = s.startedBy u ++ if w = u then [f] else [] := by
  rw [State.startedBy, h, List.filterMap_append]
  congr 1
  by_cases hu : w = u
  · simp [hu]
  · simp [hu]

omit [DecidableEq T] in
theorem holds_of_ne {w : T} (h : s.worker w ≠ .took) : s.holds w = [] := if_neg h

/-! ## The workers -/

/-- Each worker has called what it has taken, in order, except for what it holds. -/
structure Accounts (s : State T F) : Prop where
  workers : ∀ t, t ∉ s.threads → s.worker t = .exited
  consumers : ∀ t, s.notEmpty.Waiting t → s.worker t = .taking
  executed : ∀ w, s.takenBy w = s.startedBy w ++ s.holds w
  joined : s.stop = .returned → ∀ w, s.worker w = .exited

/-- A step of one worker leaves the accounts of the others as they are. -/
theorem Accounts.worker_moves {t : State T F} (h : Accounts s) {w : T}
    (hw : s.worker w ≠ .exited) (hthreads : t.threads = s.threads) (hstop : t.stop = s.stop)
    (hother : ∀ u, u ≠ w → t.worker u = s.worker u ∧ t.takenBy u = s.takenBy u ∧
      t.startedBy u = s.startedBy u ∧ t.holds u = s.holds u)
    (hself : t.takenBy w = t.startedBy w ++ t.holds w)
    (hwait : ∀ u, t.notEmpty.Waiting u → u ≠ w ∧ s.notEmpty.Waiting u) : Accounts t := by
  constructor
  · intro u hu
    rw [hthreads] at hu
    have hexited := h.workers u hu
    have hne : u ≠ w := by
      rintro rfl
      exact hw hexited
    rw [(hother u hne).1]
    exact hexited
  · intro u hu
    obtain ⟨hne, hwaiting⟩ := hwait u hu
    rw [(hother u hne).1]
    exact h.consumers u hwaiting
  · intro u
    by_cases hu : u = w
    · rw [hu]
      exact hself
    · obtain ⟨-, htaken, hstarted, hholds⟩ := hother u hu
      rw [htaken, hstarted, hholds]
      exact h.executed u
  · intro hreturned
    rw [hstop] at hreturned
    exact absurd (h.joined hreturned w) hw

/-- A worker that holds nothing goes on, and takes and calls nothing. -/
theorem Accounts.move (h : Accounts s) {w : T} {p : Worker} (hw : s.worker w ≠ .exited)
    (htaking : s.worker w ≠ .taking) (hholds : s.holds w = []) (hp : p ≠ .took) :
    Accounts { s with worker := Function.update s.worker w p } := by
  refine h.worker_moves hw (by rfl) (by rfl) ?_ ?_ ?_
  · intro u hu
    have hsame : Function.update s.worker w p u = s.worker u := Function.update_of_ne hu ..
    refine ⟨hsame, rfl, rfl, ?_⟩
    simp only [State.holds, hsame]
  · have hnow : State.holds { s with worker := Function.update s.worker w p } w = [] := by
      apply holds_of_ne
      show Function.update s.worker w p w ≠ .took
      rw [Function.update_self]
      exact hp
    rw [hnow, ← hholds]
    exact h.executed w
  · intro u hu
    refine ⟨?_, hu⟩
    rintro rfl
    exact htaking (h.consumers u hu)

/-- The call of a task that was taken. -/
theorem Accounts.call (h : Accounts s) {w : T} {f : F} (hw : s.worker w = .took)
    (hf : s.task w = some f) :
    Accounts { s with
      worker := Function.update s.worker w .executing, started := s.started ++ [(w, f)] } := by
  have hheld : s.holds w = [f] := by
    rw [State.holds, if_pos hw, hf]
    rfl
  refine h.worker_moves (by rw [hw]; decide) (by rfl) (by rfl) ?_ ?_ ?_
  · intro u hu
    have hsame : Function.update s.worker w .executing u = s.worker u :=
      Function.update_of_ne hu ..
    refine ⟨hsame, rfl, ?_, ?_⟩
    · rw [startedBy_snoc rfl, if_neg hu.symm, List.append_nil]
    · simp only [State.holds, hsame]
  · rw [startedBy_snoc rfl, if_pos rfl, holds_of_ne, List.append_nil, ← hheld]
    · exact h.executed w
    · show Function.update s.worker w .executing w ≠ .took
      rw [Function.update_self]
      decide
  · intro u hu
    refine ⟨?_, hu⟩
    rintro rfl
    have htaking := h.consumers u hu
    rw [hw] at htaking
    cases htaking

/-- `take` returns `task` to `w`, or an empty task that is none of the queue's. -/
theorem Accounts.took (h : Accounts s) {w : T} (hw : s.worker w = .taking)
    (hwait : ¬ s.notEmpty.Waiting w) {task : Task F} {queue : List (Task F)}
    {notFull : Condition T} {taken : List (T × Task F)}
    (htaken : ∀ u, State.takenBy { s with taken := taken } u
      = s.takenBy u ++ if w = u then task.toList else []) :
    Accounts { s with
      queue := queue, notFull := notFull, worker := Function.update s.worker w .took
      task := Function.update s.task w task, taken := taken } := by
  refine h.worker_moves (by rw [hw]; decide) (by rfl) (by rfl) ?_ ?_ ?_
  · intro u hu
    have hsame : Function.update s.worker w .took u = s.worker u := Function.update_of_ne hu ..
    have hnothing := htaken u
    rw [if_neg hu.symm, List.append_nil] at hnothing
    refine ⟨hsame, hnothing, rfl, ?_⟩
    simp only [State.holds, hsame, Function.update_of_ne hu]
  · have hnone : s.holds w = [] := holds_of_ne (by rw [hw]; decide)
    have hall := htaken w
    rw [if_pos rfl, h.executed w, hnone, List.append_nil] at hall
    simp only [State.holds, Function.update_self, if_true]
    exact hall
  · intro u hu
    refine ⟨?_, hu⟩
    rintro rfl
    exact hwait hu

/-! ## The queue and the condition variables -/

/-- The queue is in order and within its bound, and while the pool runs, this many tasks and
slots are covered by notified threads. -/
structure Covered (items slots : ℕ) (s : State T F) : Prop where
  nonempty : s.threads.Nonempty
  accounts : Accounts s
  order : s.taken.map Prod.snd ++ s.queue = s.accepted
  bounded : 0 < s.maxQueueSize → s.queue.length ≤ s.maxQueueSize
  unbounded : s.maxQueueSize = 0 → s.notFull.blocked = ∅
  notEmpty : s.running = true → s.notEmpty.Covers items
  notFull : s.running = true → s.notFull.Covers slots

def State.freeSlots (s : State T F) : ℕ := s.maxQueueSize - s.queue.length

/-- What holds whenever no thread has `mutex_`. -/
def Inv (s : State T F) : Prop := Covered s.queue.length s.freeSlots s

theorem inv_start {threads : Finset T} {maxQueueSize : ℕ} (h : threads.Nonempty) :
    Inv (start threads maxQueueSize : State T F) where
  nonempty := h
  accounts := {
    workers := fun t ht => if_neg ht
    consumers := fun t ht => absurd ht Condition.not_waiting_idle
    executed := by
      intro w
      have hnone : State.holds (start threads maxQueueSize : State T F) w = [] := by
        by_cases hw : w ∈ threads <;> simp [State.holds, start, hw]
      rw [hnone]
      rfl
    joined := by intro hs; cases hs }
  order := rfl
  bounded := fun _ => Nat.zero_le _
  unbounded := fun _ => rfl
  notEmpty := fun _ => Condition.covers_idle
  notFull := fun _ => Condition.covers_idle

omit [DecidableEq T] in
theorem isFull_iff : s.isFull = true ↔ 0 < s.maxQueueSize ∧ s.maxQueueSize ≤ s.queue.length := by
  simp [State.isFull]

omit [DecidableEq T] in
theorem runLeft_of_waiting {t : T} {task : Task F} {u : State T F}
    (h : (u.waiting t).isNone = false) : s.runLeft t task u = u := by
  rw [State.runLeft, if_neg]
  rintro ⟨-, -, hnone⟩
  rw [h] at hnone
  cases hnone

omit [DecidableEq T] in
theorem runLeft_of_stopped {t : T} {task : Task F} {u : State T F} (h : s.running = false) :
    s.runLeft t task u = u := by
  rw [State.runLeft, if_neg]
  rintro ⟨-, hrunning, -⟩
  rw [h] at hrunning
  cases hrunning

/-- In front of the loop in `run`, one notified caller less may be on its way. -/
theorem Covered.ends_push {t : T} {task : Task F} {choice : Option T}
    {r : Except Failure (State T F)} (h : Covered s.queue.length (s.freeSlots - 1) s)
    (hr : s.push t task choice = some r) :
    Ends (fun u => Inv (s.runLeft t task u)) (fun _ => False) r := by
  rw [State.push] at hr
  split at hr
  · case isTrue hwait =>
      obtain ⟨hpos, hfull⟩ := isFull_iff.mp hwait.1
      cases hr
      have hslots : s.freeSlots = 0 := Nat.sub_eq_zero_of_le hfull
      show Inv (s.runLeft t task _)
      rw [runLeft_of_waiting (by simp)]
      refine { h with accounts := ?_, unbounded := ?_, notFull := ?_ }
      · exact { h.accounts with }
      · intro hzero
        exact absurd hzero hpos.ne'
      · intro _
        show (s.notFull.wait t).Covers s.freeSlots
        rw [hslots]
        exact Condition.covers_zero
  · case isFalse hnot =>
      split at hr
      · case isTrue hstopped =>
          cases hr
          show Inv (s.runLeft t task _)
          rw [runLeft_of_stopped hstopped]
          refine { h with accounts := ?_, notFull := ?_ }
          · exact { h.accounts with }
          · intro hrunning
            rw [hstopped] at hrunning
            cases hrunning
      · case isFalse hrunning =>
          rw [Bool.not_eq_false] at hrunning
          have hfull : ¬ s.isFull = true := fun hf => hnot ⟨hf, hrunning⟩
          obtain ⟨hchoice, rfl⟩ := of_guard hr
          rw [check_bind (Bool.eq_false_iff.mpr hfull)]
          rw [isFull_iff] at hfull
          have hpushed : (s.queue ++ [task]).length = s.queue.length + 1 := by
            rw [List.length_append, List.length_singleton]
          have hbounded := h.bounded
          show Inv (s.runLeft t task _)
          rw [State.runLeft, if_pos ⟨h.nonempty, hrunning, by simp⟩]
          constructor
          · exact h.nonempty
          · refine { h.accounts with consumers := ?_ }
            intro u hu
            exact h.accounts.consumers u ((Condition.waiting_notify hchoice).mp hu)
          · show s.taken.map Prod.snd ++ (s.queue ++ [task]) = s.accepted ++ [task]
            rw [← List.append_assoc, h.order]
          · show 0 < s.maxQueueSize → (s.queue ++ [task]).length ≤ s.maxQueueSize
            omega
          · exact h.unbounded
          · intro _
            show (s.notEmpty.notify choice).Covers (s.queue ++ [task]).length
            rw [hpushed]
            exact (h.notEmpty hrunning).notify hchoice
          · intro _
            apply (h.notFull hrunning).mono
            simp only [State.freeSlots, hpushed]
            omega

/-- In front of the loop in `take`, one notified worker less may be on its way. -/
theorem Covered.ends_pop {w : T} {choice : Option T} {r : Except Failure (State T F)}
    (h : Covered (s.queue.length - 1) s.freeSlots s) (hw : s.worker w = .taking)
    (hwait : ¬ s.notEmpty.Waiting w) (hr : s.pop w choice = some r) :
    Ends Inv (fun _ => False) r := by
  have horder := h.order
  have hbounded := h.bounded
  have hnotEmpty := h.notEmpty
  cases hq : s.queue with
  | nil =>
      simp only [State.pop, hq] at hr
      rw [hq] at horder hbounded hnotEmpty
      have hslots : s.running = true → s.notFull.Covers s.maxQueueSize := by
        intro hrunning
        have hcovers := h.notFull hrunning
        rw [State.freeSlots, hq] at hcovers
        exact hcovers
      split at hr
      · cases hr
        refine ⟨h.nonempty, ?_, horder, hbounded, h.unbounded, fun _ => Condition.covers_zero,
          hslots⟩
        refine { h.accounts with consumers := ?_ }
        intro u hu
        rcases Condition.waiting_wait.mp hu with rfl | hu
        · exact hw
        · exact h.accounts.consumers u hu
      · cases hr
        refine ⟨h.nonempty, ?_, horder, hbounded, h.unbounded, hnotEmpty, hslots⟩
        apply h.accounts.took hw hwait
        intro u
        rw [Option.toList_none, ite_self, List.append_nil]
  | cons task queue =>
      simp only [State.pop, hq] at hr
      rw [hq] at horder hbounded hnotEmpty
      have hmoved : (s.taken ++ [(w, task)]).map Prod.snd ++ queue = s.accepted := by
        rw [List.map_append, List.append_assoc]
        exact horder
      have hshorter : 0 < s.maxQueueSize → queue.length ≤ s.maxQueueSize := by
        intro hpos
        have hle := hbounded hpos
        rw [List.length_cons] at hle
        omega
      split at hr
      · case isTrue hpos =>
          obtain ⟨hchoice, rfl⟩ := of_guard hr
          have hslots : s.maxQueueSize - queue.length = s.freeSlots + 1 := by
            have hle := hbounded hpos
            rw [List.length_cons] at hle
            rw [State.freeSlots, hq, List.length_cons]
            omega
          refine ⟨h.nonempty, ?_, hmoved, hshorter, ?_, hnotEmpty, ?_⟩
          · exact h.accounts.took hw hwait fun u => takenBy_snoc rfl
          · intro hzero
            exact absurd hzero (Nat.ne_of_gt hpos)
          · intro hrunning
            show (s.notFull.notify choice).Covers (s.maxQueueSize - queue.length)
            rw [hslots]
            exact (h.notFull hrunning).notify hchoice
      · case isFalse hzero =>
          cases hr
          refine ⟨h.nonempty, ?_, hmoved, hshorter, h.unbounded, hnotEmpty, ?_⟩
          · exact h.accounts.took hw hwait fun u => takenBy_snoc rfl
          · intro _
            show s.notFull.Covers (s.maxQueueSize - queue.length)
            rw [Nat.eq_zero_of_not_pos hzero, Nat.zero_sub]
            exact Condition.covers_zero

theorem Inv.ends_step {r : Except Failure (State T F)} (h : Inv s) (hs : step s a = some r) :
    Ends Inv (fun _ => False) r := by
  have hinv : Covered s.queue.length s.freeSlots s := h
  have hconsumers := h.accounts.consumers
  cases a with
  | run t task choice =>
      obtain ⟨-, hmap⟩ := of_guard' hs
      obtain ⟨r, hr, rfl⟩ := Option.map_eq_some_iff.mp hmap
      simp only [State.run, if_neg h.nonempty.ne_empty] at hr
      refine (Covered.ends_push { hinv with notFull := ?_ } hr).map fun _ hu => hu
      exact fun hrunning => (h.notFull hrunning).mono (Nat.sub_le _ 1)
  | resumeRun t choice =>
      simp only [step] at hs
      split at hs
      · obtain ⟨-, hmap⟩ := of_guard' hs
        obtain ⟨r, hr, rfl⟩ := Option.map_eq_some_iff.mp hmap
        refine (Covered.ends_push (s := { s with notFull := s.notFull.resume t }) ?_ hr).map
          fun _ hu => hu
        refine { hinv with accounts := ?_, notFull := ?_ }
        · exact { h.accounts with }
        · exact fun hrunning => (h.notFull hrunning).resume
      · cases hs
  | initialized w =>
      obtain ⟨⟨hw, -⟩, rfl⟩ := of_guard hs
      refine { hinv with accounts := ?_ }
      apply h.accounts.move <;> simp [holds_of_ne, hw]
  | condition w =>
      obtain ⟨hw, rfl⟩ := of_guard hs
      refine { hinv with accounts := ?_ }
      apply h.accounts.move
      · simp [hw]
      · simp [hw]
      · simp [holds_of_ne, hw]
      · cases s.running <;> simp
  | take w choice =>
      obtain ⟨⟨hw, hwait⟩, hr⟩ := of_guard' hs
      refine Covered.ends_pop { hinv with notEmpty := ?_ } hw hwait hr
      exact fun hrunning => (h.notEmpty hrunning).mono (Nat.sub_le _ 1)
  | resumeTake w choice =>
      obtain ⟨hresume, hr⟩ := of_guard' hs
      have hw := hconsumers w (Condition.waiting_of_canResume hresume)
      refine Covered.ends_pop (s := { s with notEmpty := s.notEmpty.resume w }) ?_ hw
        (Condition.not_waiting_resume hresume) hr
      refine { hinv with accounts := ?_, notEmpty := ?_ }
      · refine { h.accounts with consumers := ?_ }
        exact fun u hu => hconsumers u (Condition.waiting_of_resume hu)
      · exact fun hrunning => (h.notEmpty hrunning).resume
  | call w =>
      obtain ⟨hw, hr⟩ := of_guard' hs
      split at hr
      · case _ f hf =>
          cases hr
          exact { hinv with accounts := h.accounts.call hw hf }
      · case _ hnone =>
          cases hr
          refine { hinv with accounts := ?_ }
          apply h.accounts.move <;> simp [State.holds, hw, hnone]
  | taskReturns w =>
      obtain ⟨⟨hw, -⟩, rfl⟩ := of_guard hs
      refine { hinv with accounts := ?_ }
      apply h.accounts.move <;> simp [holds_of_ne, hw]
  | stop t =>
      obtain ⟨-, rfl⟩ := of_guard hs
      exact {
        nonempty := h.nonempty
        accounts := { h.accounts with
          consumers := fun u hu => hconsumers u (Condition.waiting_notifyAll.mp hu)
          joined := by intro hreturned; cases hreturned }
        order := h.order
        bounded := h.bounded
        unbounded := fun _ => Condition.blocked_notifyAll
        notEmpty := by intro hrunning; cases hrunning
        notFull := by intro hrunning; cases hrunning }
  | joined =>
      obtain ⟨⟨-, hexited⟩, rfl⟩ := of_guard hs
      refine { hinv with accounts := ?_ }
      refine { h.accounts with joined := ?_ }
      intro _ w
      by_cases hw : w ∈ s.threads
      · exact hexited w hw
      · exact h.accounts.workers w hw
  | wakeTake w =>
      obtain ⟨hblocked, rfl⟩ := of_guard hs
      refine { hinv with accounts := ?_, notEmpty := ?_ }
      · refine { h.accounts with consumers := ?_ }
        exact fun u hu => hconsumers u ((Condition.waiting_wake hblocked).mp hu)
      · exact fun hrunning => (h.notEmpty hrunning).wake
  | wakeRun t =>
      obtain ⟨-, rfl⟩ := of_guard hs
      refine { hinv with accounts := ?_, unbounded := ?_, notFull := ?_ }
      · exact { h.accounts with }
      · intro hzero
        show s.notFull.blocked.erase t = ∅
        rw [h.unbounded hzero, Finset.erase_empty]
      · exact fun hrunning => (h.notFull hrunning).wake

theorem reachable_safe {P : State T F → Action T F → Prop} (h : runs.Reachable P s) :
    Inv s ∧ ∀ a e, P s a → ¬ runs.Fails s a e := by
  apply h.safe
  · rintro _ ⟨threads, hne, maxQueueSize, rfl⟩
    exact inv_start hne
  · intro s a r hi _ hs
    exact hi.ends_step hs

/-! ## After `stop` -/

theorem push_same {t : T} {task : Task F} {choice : Option T} {u : State T F}
    (h : s.push t task choice = some (.ok u)) : u.stop = s.stop ∧ u.started = s.started := by
  rw [State.push] at h
  split at h
  · cases h
    exact ⟨rfl, rfl⟩
  · split at h
    · cases h
      exact ⟨rfl, rfl⟩
    · obtain ⟨-, hu⟩ := of_guard h
      obtain ⟨_, -, hreturn⟩ := bind_eq_ok.mp hu
      cases hreturn
      exact ⟨rfl, rfl⟩

omit [DecidableEq T] in
theorem runLeft_same {t : T} {task : Task F} {u : State T F} :
    (s.runLeft t task u).stop = u.stop ∧ (s.runLeft t task u).started = u.started := by
  rw [State.runLeft]
  split <;> exact ⟨rfl, rfl⟩

/-- A call of `run` on a pool with threads does not call anything itself. -/
theorem runLeft_push {s₀ : State T F} {t : T} {task : Task F} {choice : Option T}
    {u : State T F}
    (h : (s.push t task choice).map (Except.map (s₀.runLeft t task)) = some (.ok u)) :
    u.stop = s.stop ∧ u.started = s.started := by
  obtain ⟨r, hr, hu⟩ := Option.map_eq_some_iff.mp h
  obtain ⟨v, rfl, rfl⟩ := map_eq_ok.mp hu
  obtain ⟨hstop, hstarted⟩ := push_same hr
  exact ⟨runLeft_same.1.trans hstop, runLeft_same.2.trans hstarted⟩

/-- With the workers gone nobody calls a task. -/
theorem Inv.next_returned {t : State T F} (h : Inv s) (hr : s.stop = .returned)
    (hn : runs.Next s a t) : t.stop = .returned ∧ t.started = s.started := by
  have hs : step s a = some (.ok t) := hn
  have hexited (w : T) {p : Worker} (hp : p ≠ .exited) : s.worker w ≠ p := by
    rw [h.accounts.joined hr w]
    exact hp.symm
  cases a with
  | run u task choice =>
      obtain ⟨-, hpush⟩ := of_guard' hs
      simp only [State.run, if_neg h.nonempty.ne_empty] at hpush
      rw [← hr]
      exact runLeft_push hpush
  | resumeRun u choice =>
      simp only [step] at hs
      split at hs
      · obtain ⟨-, hpush⟩ := of_guard' hs
        rw [← hr]
        exact runLeft_push (s := { s with notFull := s.notFull.resume u }) hpush
      · cases hs
  | initialized w | taskReturns w =>
      obtain ⟨⟨hw, -⟩, -⟩ := of_guard' hs
      exact absurd hw (hexited w (by decide))
  | condition w =>
      obtain ⟨hw, -⟩ := of_guard' hs
      exact absurd hw (hexited w (by decide))
  | take w choice =>
      obtain ⟨⟨hw, -⟩, -⟩ := of_guard' hs
      exact absurd hw (hexited w (by decide))
  | resumeTake w choice =>
      obtain ⟨hresume, -⟩ := of_guard' hs
      have hw := h.accounts.consumers w (Condition.waiting_of_canResume hresume)
      exact absurd hw (hexited w (by decide))
  | call w =>
      obtain ⟨hw, -⟩ := of_guard' hs
      exact absurd hw (hexited w (by decide))
  | stop u =>
      obtain ⟨⟨hnot, -⟩, -⟩ := of_guard' hs
      rw [hr] at hnot
      cases hnot
  | joined =>
      obtain ⟨-, ht⟩ := of_guard hs
      cases ht
      exact ⟨rfl, rfl⟩
  | wakeTake u | wakeRun u =>
      obtain ⟨-, ht⟩ := of_guard hs
      cases ht
      exact ⟨hr, rfl⟩

theorem started_after_stop {t : State T F} {as : List (Action T F)} (h : Inv s)
    (hr : s.stop = .returned) (hrun : runs.Run System.always s as t) :
    t.started = s.started := by
  have hall := hrun.invariant
    (I := fun u => Inv u ∧ u.stop = .returned ∧ u.started = s.started) ?_ ⟨h, hr, rfl⟩
  · exact hall.2.2
  · rintro u a v ⟨hu, hreturned, hstarted⟩ - hn
    obtain ⟨hstop, hsame⟩ := hu.next_returned hreturned hn
    have hv : Inv v := hu.ends_step hn
    exact ⟨hv, hstop, hsame.trans hstarted⟩

/-! ## The tasks -/

/-- In every run of a started pool:
the accepted tasks are those taken and those in the queue, in order;
each worker has called exactly the tasks it has taken, except for one that it is about to call,
and none is left once `stop` has returned;
the queue keeps its bound, and no assertion fails;
while the pool runs, a worker that is blocked with a task in the queue, or a caller of `run`
with a free slot, leaves another one notified;
and after `stop` nothing is called. -/
theorem tasks_accounted (s : State T F) (h : runs.Reachable System.always s) :
    s.taken.map Prod.snd ++ s.queue = s.accepted ∧
    (∀ w, s.takenBy w = s.startedBy w ++ s.holds w) ∧
    (∀ w f, s.holds w = [f] →
      ∃ t, runs.Next s (.call w) t ∧ t.started = s.started ++ [(w, f)]) ∧
    (s.stop = .returned → ∀ w, s.takenBy w = s.startedBy w) ∧
    (s.maxQueueSize > 0 → s.queue.length ≤ s.maxQueueSize) ∧
    (∀ a e, ¬ runs.Fails s a e) ∧
    (s.running = true → ∀ w ∈ s.notEmpty.blocked, s.queue ≠ [] →
      ∃ v ∈ s.threads, v ∈ s.notEmpty.notified) ∧
    (s.running = true → ∀ t ∈ s.notFull.blocked, s.isFull = false →
      ∃ u, u ∈ s.notFull.notified) ∧
    (s.stop = .returned → ∀ as t, runs.Run System.always s as t → t.started = s.started) := by
  obtain ⟨hinv, hsafe⟩ := reachable_safe h
  have haccounts := hinv.accounts
  refine ⟨hinv.order, haccounts.executed, ?_, ?_, hinv.bounded, fun a e => hsafe a e trivial,
    ?_, ?_, ?_⟩
  · intro w f hholds
    by_cases hw : s.worker w = .took
    · rw [State.holds, if_pos hw, Option.toList_eq_singleton_iff] at hholds
      refine ⟨{ s with
        worker := Function.update s.worker w .executing
        started := s.started ++ [(w, f)] }, ?_, rfl⟩
      show step s (.call w) = _
      simp only [step, if_pos hw, hholds]
    · rw [holds_of_ne hw] at hholds
      cases hholds
  · intro hreturned w
    have hexited := haccounts.joined hreturned w
    rw [haccounts.executed w, holds_of_ne (by rw [hexited]; decide), List.append_nil]
  · intro hrunning w hw hne
    have hpos := List.length_pos_of_ne_nil hne
    obtain ⟨v, hv⟩ := (hinv.notEmpty hrunning).exists_notified hpos hw
    refine ⟨v, ?_, hv⟩
    by_contra hnot
    have htaking := haccounts.consumers v (Or.inr (Or.inl hv))
    rw [haccounts.workers v hnot] at htaking
    cases htaking
  · intro hrunning t ht hroom
    have hbound : s.maxQueueSize ≠ 0 := by
      intro hzero
      rw [hinv.unbounded hzero] at ht
      exact absurd ht (Finset.notMem_empty t)
    have hnot : ¬ s.isFull = true := Bool.eq_false_iff.mp hroom
    rw [isFull_iff] at hnot
    have hpos : 0 < s.freeSlots := by
      rw [State.freeSlots]
      omega
    exact (hinv.notFull hrunning).exists_notified hpos ht
  · intro hreturned as t hrun
    exact started_after_stop hinv hreturned hrun

/-- One worker and a queue of one task. A task is taken and called; the call of `run` that
waits for the slot returns without a push when the pool is stopped. -/
theorem tasks_accounted_sample : ∃ s : State ℕ Char,
    runs.Reachable System.always s ∧ s.stop = .returned ∧ s.accepted = [some 'a'] ∧
      s.started = [(0, 'a')] ∧ s.takenBy 0 = s.startedBy 0 := by
  have hrun := System.run_of_exec (rfl : runs.exec (start {0} 1 : State ℕ Char)
    [.initialized 0, .condition 0, .take 0 none, .run 1 (some 'a') (some 0),
      .run 2 (some 'b') none, .resumeTake 0 (some 2), .call 0, .stop 1, .resumeRun 2 none,
      .taskReturns 0, .condition 0, .joined] = some (.ok _))
  have hreach : runs.Reachable System.always _ :=
    ⟨_, _, ⟨{0}, Finset.singleton_nonempty 0, 1, rfl⟩, hrun⟩
  have hall := tasks_accounted _ hreach
  exact ⟨_, hreach, rfl, rfl, rfl, hall.2.2.2.1 rfl 0⟩

end ThreadPool

end Zing.Base
