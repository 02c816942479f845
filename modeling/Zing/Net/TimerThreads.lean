import Zing.Net.EventLoopFunctors
import Zing.Net.TimerRuns

set_option autoImplicit false

/-! # Timers and threads

`TimerQueue::addTimer` and `TimerQueue::cancel`, called by the owner of the loop and by any
number of other threads. The state consists of the loop with its functor queue (`EventLoop`)
and the timer queue (`TimerQueue`), and a step is a step of one of them, or of both where the
loop calls a functor.

`addTimer` takes three steps: it allocates the timer; it hands it to `addTimerInLoop`, at once
on the owner's thread and through the functor queue on another; and it reads the sequence number
of the timer for the `TimerId` that it returns. `runAt`, `runAfter` and `runEvery` are calls of
it. Addresses that were freed may be used again.
-/

namespace Zing.Net.TimerThreads

open Zing.Lib

open EventLoop (World Queued)

variable {T : Type}

/-! ## Steps -/

/-- The functors that the timer queue makes, and those of the user. -/
inductive Functor
  | addTimerInLoop (timer : Addr)
  | cancelInLoop (timerId : TimerId)
  | user
  deriving DecidableEq

inductive Assertion
  | loop (e : EventLoop.Assertion)
  | timers (e : TimerQueue.Assertion)
  deriving DecidableEq

/-- Where a thread is in `addTimer`, with the pair that its timer was constructed with. -/
inductive Call
  | idle
  /-- In front of `runInLoop`. -/
  | constructed (timer : TimerId)
  /-- In front of `timer->sequence()`. -/
  | handed (timer : TimerId)
  deriving DecidableEq

/-- A call of `addTimer` that has returned: the pair that its timer was constructed with, and
what it has returned. -/
structure Returned where
  timer : TimerId
  value : TimerId

/-- The loop and the timer queue, and the threads: `none` is the owner of the loop. `created`
are the pairs of all timers that were constructed. -/
structure State (T : Type) where
  world : World T Functor
  timers : TimerQueue.State
  calls : Option T → Call
  created : List TimerId
  returned : List Returned

inductive Action (T : Type)
  /-- `new Timer` in `addTimer`. -/
  | newTimer (thread : Option T) (p : Addr) (when : Timestamp) (interval : Interval)
  /-- `runInLoop` in `addTimer`; `now` is the clock that `addTimerInLoop` reads. -/
  | runInLoop (thread : Option T) (now : Timestamp)
  /-- `return TimerId(timer, timer->sequence())`. -/
  | returnId (thread : Option T)
  | cancel (thread : Option T) (timerId : TimerId)
  /-- The next functor of the batch is called. -/
  | runFunctor (now : Timestamp)
  | handleRead (now : Timestamp)
  | runCallback
  | finish (clock : Timestamp)
  /-- Any other step of the loop, or of a call of its functions. -/
  | inLoop (a : EventLoop.Action T Functor)

/-- The object at the pair's address is the one constructed with it. -/
def State.Live (s : State T) (id : TimerId) : Prop := s.timers.queue.memory.Live id

/-- The owner runs code of the user, or the other thread is in no call. -/
def State.MayCall (s : State T) : Option T → Prop
  | none => s.calls none = .idle ∧ s.world.phase.userCode = true ∧ s.timers.userCode = true
  | some thread => s.calls (some thread) = .idle ∧ s.world.foreign thread = .idle

/-- The owner is neither in `addTimer` nor in `TimerQueue::handleRead`. -/
def State.OwnerFree (s : State T) : Prop :=
  s.calls none = .idle ∧ s.timers.batch.isNone = true

instance (s : State T) : (thread : Option T) → Decidable (s.MayCall thread)
  | none => inferInstanceAs (Decidable (_ ∧ _ ∧ _))
  | some _ => inferInstanceAs (Decidable (_ ∧ _))

instance (s : State T) : Decidable s.OwnerFree := inferInstanceAs (Decidable (_ ∧ _))

/-- The steps of the loop that are not steps of the timer queue, and when they are possible. -/
def State.Allows (s : State T) : EventLoop.Action T Functor → Prop
  | .queueInLoop cb => cb = .user ∧ s.MayCall none
  | .push thread cb => cb = .user ∧ s.MayCall (some thread)
  | .quit | .loop => s.MayCall none
  | .setQuit thread => s.MayCall (some thread)
  | .wakeup _ => True
  | .runFunctor => False
  | .storeQuit | .condition | .pollReturns _ | .handleRead | .handled | .swap
  | .finishFunctors => s.OwnerFree

instance (s : State T) : (a : EventLoop.Action T Functor) → Decidable (s.Allows a)
  | .queueInLoop _ | .push _ _ => inferInstanceAs (Decidable (_ ∧ _))
  | .quit | .loop => inferInstanceAs (Decidable (s.MayCall none))
  | .setQuit thread => inferInstanceAs (Decidable (s.MayCall (some thread)))
  | .wakeup _ => inferInstanceAs (Decidable True)
  | .runFunctor => inferInstanceAs (Decidable False)
  | .storeQuit | .condition | .pollReturns _ | .handleRead | .handled | .swap
  | .finishFunctors => inferInstanceAs (Decidable s.OwnerFree)

/-- The loop handles its active channels. -/
def handling {ι : Type} : EventLoop.Phase ι → Bool
  | .handling _ => true
  | _ => false

/-- A step of the timer queue. -/
def State.inTimers (s : State T) (a : TimerQueue.Action) :
    Option (Except Assertion (State T)) :=
  (TimerQueue.step s.timers a).map fun r => do
    let q ← nested .timers r
    return { s with timers := q }

/-- `thread` goes on in `addTimer`. -/
def State.goes [DecidableEq T] (s : State T) (thread : Option T) (c : Call) : State T :=
  { s with calls := Function.update s.calls thread c }

variable [DecidableEq T]

/-- A step of the loop. -/
def State.inWorld (s : State T) (a : EventLoop.Action T Functor) :
    Option (Except Assertion (State T)) :=
  (EventLoop.step s.world a).map fun r => do
    let w ← nested .loop r
    return { s with world := w }

/-- `runInLoop(cb)`: the owner calls it, and another thread queues it. -/
def State.runInLoop (s : State T) (thread : Option T) (now : Timestamp) (cb : Functor) :
    Option (Except Assertion (State T)) :=
  match thread, cb with
  | none, .addTimerInLoop timer => s.inTimers (.addTimerInLoop timer now)
  | none, .cancelInLoop timerId => s.inTimers (.cancelInLoop timerId)
  | none, .user => some (.ok s)
  | some thread, cb => s.inWorld (.push thread cb)

def step (s : State T) : Action T → Option (Except Assertion (State T))
  | .newTimer thread p when interval =>
      if s.MayCall thread then
        let timer : TimerId := ⟨p, s.timers.queue.memory.numCreated + 1⟩
        { s.goes thread (.constructed timer) with
          created := s.created ++ [timer] }.inTimers (.newTimer p when interval)
      else none
  | .runInLoop thread now =>
      match s.calls thread with
      | .constructed timer =>
          (s.goes thread (.handed timer)).runInLoop thread now (.addTimerInLoop timer.timer)
      | _ => none
  | .returnId thread =>
      match s.calls thread with
      | .handed timer =>
          if ∀ t ∈ thread, s.world.foreign t = .idle then
            some (do
              let t ← nested .timers (s.timers.queue.deref timer.timer)
              let value : TimerId := ⟨timer.timer, t.sequence⟩
              return { s.goes thread .idle with
                returned := s.returned ++ [{ timer := timer, value := value }] })
          else none
      | _ => none
  | .cancel thread timerId =>
      -- the threads have the ids from each other
      if s.MayCall thread ∧ timerId ∈ s.returned.map Returned.value then
        s.runInLoop thread 0 (.cancelInLoop timerId)
      else none
  | .runFunctor now =>
      match s.world.phase with
      | .calling (functor :: rest) _ =>
          if s.calls none = .idle then
            { s with world := { s.world with
              phase := .calling rest true
              executed := s.world.executed ++ [functor] } }.runInLoop none now functor.functor
          else none
      | _ => none
  | .handleRead now =>
      if s.OwnerFree ∧ handling s.world.phase = true then s.inTimers (.handleRead now)
      else none
  | .runCallback => if s.calls none = .idle then s.inTimers .runCallback else none
  | .finish clock => if s.calls none = .idle then s.inTimers (.finish clock) else none
  | .inLoop a => if s.Allows a then s.inWorld a else none

def start : State T where
  world := EventLoop.start
  timers := TimerQueue.start
  calls := fun _ => .idle
  created := []
  returned := []

/-- The runs of a loop, its timer queue and the threads. -/
def runs : System (State T) (Action T) Assertion where
  init := fun s => s = start
  step := step

/-- The loop is entered, and handles its first events. -/
def firstEvents : List (Action T) :=
  [.inLoop .loop, .inLoop .storeQuit, .inLoop .condition, .inLoop (.pollReturns false)]

/-- The functor of a batch is called, and the loop polls and handles its events again. -/
def nextEvents : List (Action T) :=
  [.inLoop .handled, .inLoop .swap, .runFunctor 20, .inLoop .finishFunctors,
    .inLoop .condition, .inLoop (.pollReturns false)]

/-- What the steps do. -/
inductive Moves (s : State T) : Action T → State T → Prop
  | newTimer {thread : Option T} {p : Addr} {when : Timestamp} {interval : Interval}
      {q : TimerQueue.State} (hm : s.MayCall thread)
      (hq : TimerQueue.runs.Next s.timers (.newTimer p when interval) q) :
      Moves s (.newTimer thread p when interval)
        { s.goes thread (.constructed ⟨p, s.timers.queue.memory.numCreated + 1⟩) with
          timers := q
          created := s.created ++ [⟨p, s.timers.queue.memory.numCreated + 1⟩] }
  | add {timer : TimerId} {now : Timestamp} {q : TimerQueue.State}
      (hc : s.calls none = .constructed timer)
      (hq : TimerQueue.runs.Next s.timers (.addTimerInLoop timer.timer now) q) :
      Moves s (.runInLoop none now) { s.goes none (.handed timer) with timers := q }
  | post {thread : T} {timer : TimerId} {now : Timestamp} {w : World T Functor}
      (hc : s.calls (some thread) = .constructed timer)
      (hw : EventLoop.runs.Next s.world (.push thread (.addTimerInLoop timer.timer)) w) :
      Moves s (.runInLoop (some thread) now)
        { s.goes (some thread) (.handed timer) with world := w }
  | returnId {thread : Option T} {timer : TimerId} {t : Timer}
      (hc : s.calls thread = .handed timer)
      (ht : s.timers.queue.memory.live timer.timer = some t) :
      Moves s (.returnId thread)
        { s.goes thread .idle with
          returned := s.returned ++
            [{ timer := timer, value := ⟨timer.timer, t.sequence⟩ }] }
  | cancel {timerId : TimerId} {q : TimerQueue.State} (hm : s.MayCall none)
      (hr : timerId ∈ s.returned.map Returned.value)
      (hq : TimerQueue.runs.Next s.timers (.cancelInLoop timerId) q) :
      Moves s (.cancel none timerId) { s with timers := q }
  | postCancel {thread : T} {timerId : TimerId} {w : World T Functor}
      (hm : s.MayCall (some thread)) (hr : timerId ∈ s.returned.map Returned.value)
      (hw : EventLoop.runs.Next s.world (.push thread (.cancelInLoop timerId)) w) :
      Moves s (.cancel (some thread) timerId) { s with world := w }
  | callAdd {functor : Queued T Functor} {timer : Addr} {now : Timestamp}
      {w : World T Functor} {q : TimerQueue.State} (hc : s.calls none = .idle)
      (hf : functor.functor = .addTimerInLoop timer)
      (hw : EventLoop.runs.Next s.world .runFunctor w)
      (he : w.executed = s.world.executed ++ [functor])
      (hq : TimerQueue.runs.Next s.timers (.addTimerInLoop timer now) q) :
      Moves s (.runFunctor now) { s with world := w, timers := q }
  | callCancel {functor : Queued T Functor} {timerId : TimerId} {now : Timestamp}
      {w : World T Functor} {q : TimerQueue.State} (hc : s.calls none = .idle)
      (hf : functor.functor = .cancelInLoop timerId)
      (hw : EventLoop.runs.Next s.world .runFunctor w)
      (he : w.executed = s.world.executed ++ [functor])
      (hq : TimerQueue.runs.Next s.timers (.cancelInLoop timerId) q) :
      Moves s (.runFunctor now) { s with world := w, timers := q }
  | callUser {functor : Queued T Functor} {now : Timestamp} {w : World T Functor}
      (hc : s.calls none = .idle) (hf : functor.functor = .user)
      (hw : EventLoop.runs.Next s.world .runFunctor w)
      (he : w.executed = s.world.executed ++ [functor]) :
      Moves s (.runFunctor now) { s with world := w }
  | handleRead {now : Timestamp} {q : TimerQueue.State} (hc : s.OwnerFree)
      (hq : TimerQueue.runs.Next s.timers (.handleRead now) q) :
      Moves s (.handleRead now) { s with timers := q }
  | runCallback {q : TimerQueue.State} (hc : s.calls none = .idle)
      (hq : TimerQueue.runs.Next s.timers .runCallback q) :
      Moves s .runCallback { s with timers := q }
  | finish {clock : Timestamp} {q : TimerQueue.State} (hc : s.calls none = .idle)
      (hq : TimerQueue.runs.Next s.timers (.finish clock) q) :
      Moves s (.finish clock) { s with timers := q }
  | inLoop {a : EventLoop.Action T Functor} {w : World T Functor} (ha : s.Allows a)
      (hw : EventLoop.runs.Next s.world a w) : Moves s (.inLoop a) { s with world := w }

variable {s t : State T} {a : Action T}

omit [DecidableEq T] in
theorem inTimers_ok {b : TimerQueue.Action} (h : s.inTimers b = some (.ok t)) :
    ∃ q, TimerQueue.runs.Next s.timers b q ∧ t = { s with timers := q } := by
  obtain ⟨r, hr, hb⟩ := Option.map_eq_some_iff.mp h
  cases r with
  | error e => cases hb
  | ok q =>
      cases hb
      exact ⟨q, hr, rfl⟩

theorem inWorld_ok {b : EventLoop.Action T Functor} (h : s.inWorld b = some (.ok t)) :
    ∃ w, EventLoop.runs.Next s.world b w ∧ t = { s with world := w } := by
  obtain ⟨r, hr, hb⟩ := Option.map_eq_some_iff.mp h
  cases r with
  | error e => cases hb
  | ok w =>
      cases hb
      exact ⟨w, hr, rfl⟩

theorem next_moves (hn : runs.Next s a t) : Moves s a t := by
  have hs : step s a = some (.ok t) := hn
  cases a with
  | newTimer thread p when interval =>
      obtain ⟨hm, hnew⟩ := of_guard' hs
      obtain ⟨q, hq, rfl⟩ := inTimers_ok hnew
      exact Moves.newTimer hm hq
  | runInLoop thread now =>
      cases hc : s.calls thread with
      | constructed timer =>
          simp only [step, hc] at hs
          cases thread with
          | none =>
              obtain ⟨q, hq, rfl⟩ := inTimers_ok hs
              exact Moves.add hc hq
          | some thread =>
              obtain ⟨w, hw, rfl⟩ := inWorld_ok hs
              exact Moves.post hc hw
      | _ => simp only [step, hc] at hs; cases hs
  | returnId thread =>
      cases hc : s.calls thread with
      | handed timer =>
          simp only [step, hc] at hs
          obtain ⟨-, hret⟩ := of_guard hs
          cases hl : s.timers.queue.memory.live timer.timer with
          | none =>
              simp only [TimerQueue.deref, hl] at hret
              cases hret
          | some u =>
              simp only [TimerQueue.deref, hl, nested_ok, ok_bind] at hret
              cases hret
              exact Moves.returnId hc hl
      | _ => simp only [step, hc] at hs; cases hs
  | cancel thread timerId =>
      obtain ⟨⟨hm, hr⟩, hcancel⟩ := of_guard' hs
      cases thread with
      | none =>
          obtain ⟨q, hq, rfl⟩ := inTimers_ok hcancel
          exact Moves.cancel hm hr hq
      | some thread =>
          obtain ⟨w, hw, rfl⟩ := inWorld_ok hcancel
          exact Moves.postCancel hm hr hw
  | runFunctor now =>
      cases hp : s.world.phase with
      | calling batch inFunctor =>
          cases batch with
          | nil => simp only [step, hp] at hs; cases hs
          | cons functor rest =>
              simp only [step, hp] at hs
              obtain ⟨hc, hcall⟩ := of_guard' hs
              have hw : EventLoop.runs.Next s.world .runFunctor
                  { s.world with
                    phase := .calling rest true
                    executed := s.world.executed ++ [functor] } := by
                show EventLoop.step s.world .runFunctor = _
                simp only [EventLoop.step, hp]
              cases hf : functor.functor with
              | addTimerInLoop timer =>
                  rw [hf] at hcall
                  obtain ⟨q, hq, rfl⟩ := inTimers_ok hcall
                  exact Moves.callAdd hc hf hw rfl hq
              | cancelInLoop timerId =>
                  rw [hf] at hcall
                  obtain ⟨q, hq, rfl⟩ := inTimers_ok hcall
                  exact Moves.callCancel hc hf hw rfl hq
              | user =>
                  rw [hf] at hcall
                  cases hcall
                  exact Moves.callUser hc hf hw rfl
      | _ => simp only [step, hp] at hs; cases hs
  | handleRead now =>
      obtain ⟨⟨hc, -⟩, hread⟩ := of_guard' hs
      obtain ⟨q, hq, rfl⟩ := inTimers_ok hread
      exact Moves.handleRead hc hq
  | runCallback =>
      obtain ⟨hc, hrun⟩ := of_guard' hs
      obtain ⟨q, hq, rfl⟩ := inTimers_ok hrun
      exact Moves.runCallback hc hq
  | finish clock =>
      obtain ⟨hc, hfinish⟩ := of_guard' hs
      obtain ⟨q, hq, rfl⟩ := inTimers_ok hfinish
      exact Moves.finish hc hq
  | inLoop b =>
      obtain ⟨ha, hb⟩ := of_guard' hs
      obtain ⟨w, hw, rfl⟩ := inWorld_ok hb
      exact Moves.inLoop ha hw

/-- The timer queue of a run goes through a run of its own. -/
theorem Moves.timers (h : Moves s a t) :
    t.timers = s.timers ∨ ∃ b, TimerQueue.runs.Next s.timers b t.timers := by
  cases h with
  | post | returnId | postCancel | callUser | inLoop => exact Or.inl rfl
  | newTimer hm hq => exact Or.inr ⟨_, hq⟩
  | add hc hq | handleRead hc hq | runCallback hc hq | finish hc hq => exact Or.inr ⟨_, hq⟩
  | cancel hm hr hq => exact Or.inr ⟨_, hq⟩
  | callAdd hc hf hw he hq | callCancel hc hf hw he hq => exact Or.inr ⟨_, hq⟩

/-- So does the loop. -/
theorem Moves.world (h : Moves s a t) :
    t.world = s.world ∨ ∃ b, EventLoop.runs.Next s.world b t.world := by
  cases h with
  | newTimer | add | returnId | cancel | handleRead | runCallback | finish => exact Or.inl rfl
  | post hc hw => exact Or.inr ⟨_, hw⟩
  | postCancel hm hr hw => exact Or.inr ⟨_, hw⟩
  | callAdd hc hf hw | callCancel hc hf hw | callUser hc hf hw => exact Or.inr ⟨_, hw⟩
  | inLoop ha hw => exact Or.inr ⟨_, hw⟩

theorem timers_run {P : State T → Action T → Prop} {as : List (Action T)}
    (h : runs.Run P s as t) :
    ∃ bs, TimerQueue.runs.Run System.always s.timers bs t.timers := by
  induction h with
  | nil => exact ⟨[], System.Run.nil⟩
  | snoc _ _ hn ih =>
      obtain ⟨bs, hbs⟩ := ih
      rcases (next_moves hn).timers with heq | ⟨b, hb⟩
      · exact ⟨bs, by rw [heq]; exact hbs⟩
      · exact ⟨bs ++ [b], hbs.snoc trivial hb⟩

end Zing.Net.TimerThreads
