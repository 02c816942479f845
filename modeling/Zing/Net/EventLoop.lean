import Mathlib.Algebra.Group.Nat.Defs
import Zing.Lib.Assert
import Zing.Lib.System

set_option autoImplicit false

/-! # The event loop

`EventLoop::loop`, `quit`, `queueInLoop` and `doPendingFunctors`, cut into the steps that
other threads can come between, and the system `runs` of one loop, the thread that owns it and
any number of other threads.

The owner is in one of the phases of `Phase`. Its own calls of `queueInLoop` and `quit` come
from user code: outside `loop()`, from event handlers, or from a functor. What handlers and
functors do is left to the run. A call on another thread takes two steps, the push (or the
store to `quit_`) and the `wakeup()` after it. `runInLoop` adds nothing: on the owner's thread
it calls the functor at once, and on another it is `queueInLoop`.
-/

namespace Zing.Net

open Zing.Lib

/-! ## Members -/

structure EventLoop (F : Type) where
  looping : Bool
  quit : Bool
  eventHandling : Bool
  callingPendingFunctors : Bool
  wakeupFd : Nat
  pendingFunctors : List F

namespace EventLoop

inductive Assertion
  | notLooping
  deriving DecidableEq, Repr

variable {F : Type}

def new : EventLoop F where
  looping := false
  quit := false
  eventHandling := false
  callingPendingFunctors := false
  wakeupFd := 0
  pendingFunctors := []

/-- The largest value an eventfd counter can hold: a write that would pass it fails. -/
def maxEventfd : Nat := 2 ^ 64 - 2

def wakeup (l : EventLoop F) : EventLoop F :=
  { l with wakeupFd := if l.wakeupFd < maxEventfd then l.wakeupFd + 1 else l.wakeupFd }

/-- Reading an eventfd empties it. -/
def handleRead (l : EventLoop F) : EventLoop F := { l with wakeupFd := 0 }

/-- The part of `queueInLoop` under `mutex_`. -/
def push (l : EventLoop F) (cb : F) : EventLoop F :=
  { l with pendingFunctors := l.pendingFunctors ++ [cb] }

/-- The test with which `queueInLoop` decides on a wakeup. -/
def needsWakeup (l : EventLoop F) (isInLoopThread : Bool) : Bool :=
  !isInLoopThread || l.callingPendingFunctors

/-- `queueInLoop` on the owner's thread. -/
def queueInLoop (l : EventLoop F) (cb : F) : EventLoop F :=
  let l := l.push cb
  if l.needsWakeup true = true then l.wakeup else l

theorem wakeup_wakeupFd_ne_zero (l : EventLoop F) : l.wakeup.wakeupFd ≠ 0 := by
  unfold wakeup
  simp only
  split
  · exact Nat.succ_ne_zero _
  · case isFalse h =>
      unfold maxEventfd at h
      omega

@[simp] theorem queueInLoop_pendingFunctors (l : EventLoop F) (cb : F) :
    (l.queueInLoop cb).pendingFunctors = l.pendingFunctors ++ [cb] := by
  unfold queueInLoop
  simp only
  split <;> rfl

@[simp] theorem queueInLoop_calling (l : EventLoop F) (cb : F) :
    (l.queueInLoop cb).callingPendingFunctors = l.callingPendingFunctors := by
  unfold queueInLoop
  simp only
  split <;> rfl

@[simp] theorem queueInLoop_looping (l : EventLoop F) (cb : F) :
    (l.queueInLoop cb).looping = l.looping := by
  unfold queueInLoop
  simp only
  split <;> rfl

@[simp] theorem queueInLoop_quit (l : EventLoop F) (cb : F) :
    (l.queueInLoop cb).quit = l.quit := by
  unfold queueInLoop
  simp only
  split <;> rfl

theorem queueInLoop_wakeupFd (l : EventLoop F) (cb : F) (h : l.callingPendingFunctors = true) :
    (l.queueInLoop cb).wakeupFd ≠ 0 := by
  have hneeds : (l.push cb).needsWakeup true = true := by
    rw [needsWakeup, Bool.or_eq_true]
    exact Or.inr h
  rw [queueInLoop, if_pos hneeds]
  exact wakeup_wakeupFd_ne_zero (l.push cb)

/-! ## Threads -/

/-- A functor in the queue, with the thread that pushed it: `none` is the owner. -/
structure Queued (T F : Type) where
  thread : Option T
  functor : F

/-- Where the owner is. -/
inductive Phase (ι : Type)
  /-- Not in `loop()`. -/
  | outside
  /-- Behind `looping_ = true`, in front of `quit_ = false`. -/
  | entered
  /-- About to evaluate the condition of `while (!quit_)`. -/
  | condition
  /-- About to enter `poll`, or in it. -/
  | polling
  /-- Running event handlers; `wakeupActive` while the wakeup channel is still to be handled. -/
  | handling (wakeupActive : Bool)
  /-- In `doPendingFunctors`, in front of the swap. -/
  | swapping
  /-- Running the functors of a batch, of which `rest` have not been called yet. -/
  | calling (rest : List ι) (inFunctor : Bool)

namespace Phase

variable {ι : Type}

/-- The owner runs code of the user. -/
def userCode : Phase ι → Bool
  | outside => true
  | handling _ => true
  | calling _ inFunctor => inFunctor
  | _ => false

/-- The part of the batch that has not been called yet. -/
def rest : Phase ι → List ι
  | calling rest _ => rest
  | _ => []

end Phase

/-- Where another thread is: between its push, or its store to `quit_`, and the `wakeup()`
that follows, or in neither. -/
inductive Foreign
  | idle
  | pushed
  | quitting
  deriving DecidableEq

/-- A loop and the threads, with what has happened so far: how often `poll` was started, the
functors that were pushed and those that were called, in order, and the number of functors
that had been pushed when the current batch was swapped out. -/
structure World (T F : Type) where
  loop : EventLoop (Queued T F)
  phase : Phase (Queued T F)
  foreign : T → Foreign
  polls : Nat
  pushed : List (Queued T F)
  executed : List (Queued T F)
  batchEnd : Nat

/-- The steps: `queueInLoop`, `quit` and `loop` are calls by the owner, the actions with a
thread are the steps of calls on other threads, and the rest are the steps of `loop()`. -/
inductive Action (T F : Type)
  | queueInLoop (cb : F)
  | quit
  | push (thread : T) (cb : F)
  | setQuit (thread : T)
  | wakeup (thread : T)
  | loop
  | storeQuit
  | condition
  | pollReturns (wakeupActive : Bool)
  | handleRead
  | handled
  | swap
  | runFunctor
  | finishFunctors

variable {T : Type} [DecidableEq T]

/-- A constructed loop. -/
def start : World T F where
  loop := new
  phase := .outside
  foreign := fun _ => .idle
  polls := 0
  pushed := []
  executed := []
  batchEnd := 0

def step (s : World T F) : Action T F → Option (Except Assertion (World T F))
  | .queueInLoop cb =>
      if s.phase.userCode = true then
        some (.ok { s with
          loop := s.loop.queueInLoop ⟨none, cb⟩
          pushed := s.pushed ++ [⟨none, cb⟩] })
      else none
  | .quit =>
      if s.phase.userCode = true then some (.ok { s with loop := { s.loop with quit := true } })
      else none
  | .push thread cb =>
      if s.foreign thread = .idle then
        some (.ok { s with
          loop := s.loop.push ⟨some thread, cb⟩
          foreign := Function.update s.foreign thread .pushed
          pushed := s.pushed ++ [⟨some thread, cb⟩] })
      else none
  | .setQuit thread =>
      if s.foreign thread = .idle then
        some (.ok { s with
          loop := { s.loop with quit := true }
          foreign := Function.update s.foreign thread .quitting })
      else none
  | .wakeup thread =>
      if s.foreign thread = .idle then none
      else
        some (.ok { s with
          loop := s.loop.wakeup
          foreign := Function.update s.foreign thread .idle })
  | .loop =>
      if s.phase.userCode = true then
        some (do
          check (s.loop.looping = false) .notLooping
          .ok { s with loop := { s.loop with looping := true }, phase := .entered })
      else none
  | .storeQuit =>
      match s.phase with
      | .entered =>
          some (.ok { s with loop := { s.loop with quit := false }, phase := .condition })
      | _ => none
  | .condition =>
      match s.phase with
      | .condition =>
          if s.loop.quit = true then
            some (.ok { s with loop := { s.loop with looping := false }, phase := .outside })
          else
            some (.ok { s with phase := .polling, polls := s.polls + 1 })
      | _ => none
  | .pollReturns wakeupActive =>
      -- the wakeup channel is active only if there is something to read
      match s.phase with
      | .polling =>
          if wakeupActive = true → s.loop.wakeupFd ≠ 0 then
            some (.ok { s with
              loop := { s.loop with eventHandling := true }
              phase := .handling wakeupActive })
          else none
      | _ => none
  | .handleRead =>
      match s.phase with
      | .handling true =>
          some (.ok { s with loop := s.loop.handleRead, phase := .handling false })
      | _ => none
  | .handled =>
      match s.phase with
      | .handling false =>
          some (.ok { s with
            loop := { s.loop with eventHandling := false, callingPendingFunctors := true }
            phase := .swapping })
      | _ => none
  | .swap =>
      match s.phase with
      | .swapping =>
          some (.ok { s with
            loop := { s.loop with pendingFunctors := [] }
            phase := .calling s.loop.pendingFunctors false
            batchEnd := s.pushed.length })
      | _ => none
  | .runFunctor =>
      match s.phase with
      | .calling (functor :: rest) _ =>
          some (.ok { s with phase := .calling rest true, executed := s.executed ++ [functor] })
      | _ => none
  | .finishFunctors =>
      match s.phase with
      | .calling [] _ =>
          some (.ok { s with
            loop := { s.loop with callingPendingFunctors := false }
            phase := .condition })
      | _ => none

/-- The runs of one event loop. -/
def runs : System (World T F) (Action T F) Assertion where
  init := fun s => s = start
  step := step

/-! ## Steps -/

/-- What the steps do. -/
inductive Moves (s : World T F) : Action T F → World T F → Prop
  | queueInLoop {cb : F} (hu : s.phase.userCode = true) :
      Moves s (.queueInLoop cb)
        { s with loop := s.loop.queueInLoop ⟨none, cb⟩, pushed := s.pushed ++ [⟨none, cb⟩] }
  | quit (hu : s.phase.userCode = true) :
      Moves s .quit { s with loop := { s.loop with quit := true } }
  | push {thread : T} {cb : F} (hf : s.foreign thread = .idle) :
      Moves s (.push thread cb)
        { s with
          loop := s.loop.push ⟨some thread, cb⟩
          foreign := Function.update s.foreign thread .pushed
          pushed := s.pushed ++ [⟨some thread, cb⟩] }
  | setQuit {thread : T} (hf : s.foreign thread = .idle) :
      Moves s (.setQuit thread)
        { s with
          loop := { s.loop with quit := true }
          foreign := Function.update s.foreign thread .quitting }
  | wakeup {thread : T} (hf : s.foreign thread ≠ .idle) :
      Moves s (.wakeup thread)
        { s with loop := s.loop.wakeup, foreign := Function.update s.foreign thread .idle }
  | loop (hu : s.phase.userCode = true) (hl : s.loop.looping = false) :
      Moves s .loop { s with loop := { s.loop with looping := true }, phase := .entered }
  | storeQuit (hp : s.phase = .entered) :
      Moves s .storeQuit { s with loop := { s.loop with quit := false }, phase := .condition }
  | leave (hp : s.phase = .condition) (hq : s.loop.quit = true) :
      Moves s .condition { s with loop := { s.loop with looping := false }, phase := .outside }
  | poll (hp : s.phase = .condition) (hq : s.loop.quit = false) :
      Moves s .condition { s with phase := .polling, polls := s.polls + 1 }
  | pollReturns {wakeupActive : Bool} (hp : s.phase = .polling) :
      Moves s (.pollReturns wakeupActive)
        { s with
          loop := { s.loop with eventHandling := true }
          phase := .handling wakeupActive }
  | handleRead (hp : s.phase = .handling true) :
      Moves s .handleRead { s with loop := s.loop.handleRead, phase := .handling false }
  | handled (hp : s.phase = .handling false) :
      Moves s .handled
        { s with
          loop := { s.loop with eventHandling := false, callingPendingFunctors := true }
          phase := .swapping }
  | swap (hp : s.phase = .swapping) :
      Moves s .swap
        { s with
          loop := { s.loop with pendingFunctors := [] }
          phase := .calling s.loop.pendingFunctors false
          batchEnd := s.pushed.length }
  | runFunctor {functor : Queued T F} {rest : List (Queued T F)} {inFunctor : Bool}
      (hp : s.phase = .calling (functor :: rest) inFunctor) :
      Moves s .runFunctor
        { s with phase := .calling rest true, executed := s.executed ++ [functor] }
  | finishFunctors {inFunctor : Bool} (hp : s.phase = .calling [] inFunctor) :
      Moves s .finishFunctors
        { s with
          loop := { s.loop with callingPendingFunctors := false }
          phase := .condition }

variable {s t : World T F} {a : Action T F}

theorem next_moves (hn : runs.Next s a t) : Moves s a t := by
  have hs : step s a = some (.ok t) := hn
  cases a with
  | queueInLoop cb =>
      obtain ⟨hu, ht⟩ := of_guard hs
      cases ht
      exact Moves.queueInLoop hu
  | quit =>
      obtain ⟨hu, ht⟩ := of_guard hs
      cases ht
      exact Moves.quit hu
  | push thread cb =>
      obtain ⟨hf, ht⟩ := of_guard hs
      cases ht
      exact Moves.push hf
  | setQuit thread =>
      obtain ⟨hf, ht⟩ := of_guard hs
      cases ht
      exact Moves.setQuit hf
  | wakeup thread =>
      simp only [step] at hs
      split at hs
      · cases hs
      · case isFalse hf => cases hs; exact Moves.wakeup hf
  | loop =>
      obtain ⟨hu, ht⟩ := of_guard hs
      obtain ⟨u, hl, ht⟩ := bind_eq_ok.mp ht
      cases ht
      exact Moves.loop hu (check_eq_ok.mp hl)
  | storeQuit =>
      cases hp : s.phase <;> simp only [step, hp] at hs <;> cases hs
      exact Moves.storeQuit hp
  | condition =>
      cases hp : s.phase <;> simp only [step, hp] at hs <;> try cases hs
      split at hs
      · case isTrue hq => cases hs; exact Moves.leave hp hq
      · case isFalse hq =>
          cases hs
          exact Moves.poll hp (Bool.eq_false_iff.mpr hq)
  | pollReturns wakeupActive =>
      cases hp : s.phase <;> simp only [step, hp] at hs <;> try cases hs
      split at hs
      · cases hs
        exact Moves.pollReturns hp
      · cases hs
  | handleRead =>
      cases hp : s.phase with
      | handling wakeupActive =>
          cases wakeupActive with
          | false => simp only [step, hp] at hs; cases hs
          | true =>
              simp only [step, hp] at hs
              cases hs
              exact Moves.handleRead hp
      | _ => simp only [step, hp] at hs; cases hs
  | handled =>
      cases hp : s.phase with
      | handling wakeupActive =>
          cases wakeupActive with
          | true => simp only [step, hp] at hs; cases hs
          | false =>
              simp only [step, hp] at hs
              cases hs
              exact Moves.handled hp
      | _ => simp only [step, hp] at hs; cases hs
  | swap =>
      cases hp : s.phase <;> simp only [step, hp] at hs <;> cases hs
      exact Moves.swap hp
  | runFunctor =>
      cases hp : s.phase with
      | calling rest inFunctor =>
          cases rest with
          | nil => simp only [step, hp] at hs; cases hs
          | cons functor rest =>
              simp only [step, hp] at hs
              cases hs
              exact Moves.runFunctor hp
      | _ => simp only [step, hp] at hs; cases hs
  | finishFunctors =>
      cases hp : s.phase with
      | calling rest inFunctor =>
          cases rest with
          | cons functor rest => simp only [step, hp] at hs; cases hs
          | nil =>
              simp only [step, hp] at hs
              cases hs
              exact Moves.finishFunctors hp
      | _ => simp only [step, hp] at hs; cases hs

end EventLoop

end Zing.Net
