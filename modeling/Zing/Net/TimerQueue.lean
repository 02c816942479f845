import Zing.Lib.OrdSet
import Zing.Lib.System
import Zing.Net.Timer

set_option autoImplicit false

/-! # The timer queue

The functions of `TimerQueue` that run on the loop thread, and the runs of a queue:
`runs` is the system whose steps are the allocation of a timer, `addTimerInLoop`,
`cancelInLoop`, and `handleRead` in the pieces that callbacks can come between.

What a callback does is left to the run: after `runCallback` has started one, any number of
timers may be added and cancelled before the next `runCallback` or `finish`.
-/

namespace Zing.Net

open Zing.Lib

/-! ## The timer file descriptor -/

/-- `struct timespec`. -/
structure Timespec where
  tv_sec : Int
  tv_nsec : Int

/-- The time left until `when`, read at the time `now`. -/
def howMuchTimeFromNow (when now : Timestamp) : Timespec :=
  let microseconds := when - now
  let microseconds := if microseconds < 100 then 100 else microseconds
  { tv_sec := microseconds.tdiv Timestamp.kMicroSecondsPerSecond
    tv_nsec := (microseconds.tmod Timestamp.kMicroSecondsPerSecond) * 1000 }

/-- The timer descriptor: the expiration it was last armed for since it was last read, and
every value that `timerfd_settime` was given. -/
structure Timerfd where
  armed : Option Timestamp
  settimes : List Timespec

def readTimerfd (timerfd : Timerfd) : Timerfd := { timerfd with armed := none }

/-- `timerfd_settime` fails on a malformed value only. -/
def resetTimerfd (timerfd : Timerfd) (expiration now : Timestamp) : Timerfd where
  armed := some expiration
  settimes := timerfd.settimes ++ [howMuchTimeFromNow expiration now]

namespace TimerQueue

/-! ## Members and assertions -/

/-- The assertions, with the use of a deleted `Timer` as one more. -/
inductive Assertion
  | sameSize
  | liveTimer
  | timerInserted
  | activeTimerInserted
  | timerErased
  | activeTimerErased
  | notExpired
  deriving DecidableEq, Repr

end TimerQueue

/-- A `TimerQueue`, with the memory of the `Timer` objects it points to. -/
structure TimerQueue where
  timerfd : Timerfd
  timers : OrdSet Entry
  activeTimers : OrdSet TimerId
  callingExpiredTimers : Bool
  cancelingTimers : OrdSet TimerId
  memory : Memory

namespace TimerQueue

/-- The queue that the constructor makes. -/
def new : TimerQueue where
  timerfd := { armed := none, settimes := [] }
  timers := OrdSet.empty
  activeTimers := OrdSet.empty
  callingExpiredTimers := false
  cancelingTimers := OrdSet.empty
  memory := Memory.start

/-- The object a pointer points to. -/
def deref (q : TimerQueue) (timer : Addr) : Except Assertion Timer :=
  match q.memory.live timer with
  | some t => .ok t
  | none => .error .liveTimer

/-- `delete timer`. -/
def delete (q : TimerQueue) (timer : Addr) : Except Assertion TimerQueue := do
  let t ← q.deref timer
  .ok { q with memory := q.memory.remove timer t }

/-! ## Adding and cancelling -/

/-- Put a timer into both sets, and say whether it is now the earliest. -/
def insert (q : TimerQueue) (timer : Addr) : Except Assertion (TimerQueue × Bool) := do
  check (q.timers.size = q.activeTimers.size) .sameSize
  let t ← q.deref timer
  let earliestChanged :=
    match q.timers.first with
    | none => true
    | some it => decide (t.expiration < it.when)
  let timers := q.timers.insert ⟨t.expiration, timer⟩
  check (timers.2 = true) .timerInserted
  let activeTimers := q.activeTimers.insert ⟨timer, t.sequence⟩
  check (activeTimers.2 = true) .activeTimerInserted
  check (timers.1.size = activeTimers.1.size) .sameSize
  .ok ({ q with timers := timers.1, activeTimers := activeTimers.1 }, earliestChanged)

/-- `now` is the clock that `resetTimerfd` reads. -/
def addTimerInLoop (q : TimerQueue) (timer : Addr) (now : Timestamp) :
    Except Assertion TimerQueue := do
  let r ← q.insert timer
  if r.2 = true then do
    let t ← r.1.deref timer
    .ok { r.1 with timerfd := resetTimerfd r.1.timerfd t.expiration now }
  else
    .ok r.1

def cancelInLoop (q : TimerQueue) (timerId : TimerId) : Except Assertion TimerQueue := do
  check (q.timers.size = q.activeTimers.size) .sameSize
  if timerId ∈ q.activeTimers then do
    let t ← q.deref timerId.timer
    let entry : Entry := ⟨t.expiration, timerId.timer⟩
    check (q.timers.count entry = 1) .timerErased
    let q ← { q with timers := q.timers.erase entry }.delete timerId.timer
    let q := { q with activeTimers := q.activeTimers.erase timerId }
    check (q.timers.size = q.activeTimers.size) .sameSize
    .ok q
  else
    -- the queue holds no such timer, but the batch being run may
    let q :=
      if q.callingExpiredTimers = true then
        { q with cancelingTimers := (q.cancelingTimers.insert timerId).1 }
      else q
    check (q.timers.size = q.activeTimers.size) .sameSize
    .ok q

/-! ## Expired timers -/

/-- The loop of `getExpired` over the batch. -/
def eraseActive (q : TimerQueue) : List Entry → Except Assertion TimerQueue
  | [] => .ok q
  | it :: expired => do
      let t ← q.deref it.timer
      let timer : TimerId := ⟨it.timer, t.sequence⟩
      check (q.activeTimers.count timer = 1) .activeTimerErased
      { q with activeTimers := q.activeTimers.erase timer }.eraseActive expired

def getExpired (q : TimerQueue) (now : Timestamp) :
    Except Assertion (TimerQueue × List Entry) := do
  check (q.timers.size = q.activeTimers.size) .sameSize
  let sentry : Entry := ⟨now, UINTPTR_MAX⟩
  let rest := q.timers.fromLowerBound sentry
  check (rest.first.all (fun it => decide (now < it.when)) = true) .notExpired
  let expired := q.timers.below sentry
  let q ← { q with timers := rest }.eraseActive expired
  check (q.timers.size = q.activeTimers.size) .sameSize
  .ok (q, expired)

/-- `handleRead` until it runs the first callback: the queue and the batch to run. -/
def startExpired (q : TimerQueue) (now : Timestamp) :
    Except Assertion (TimerQueue × List Entry) := do
  let r ← { q with timerfd := readTimerfd q.timerfd }.getExpired now
  .ok ({ r.1 with callingExpiredTimers := true, cancelingTimers := OrdSet.empty }, r.2)

/-- One timer of the batch in `reset`: it goes back into the queue or is deleted. -/
def resetTimer (q : TimerQueue) (it : Entry) (now : Timestamp) :
    Except Assertion TimerQueue := do
  let t ← q.deref it.timer
  let timer : TimerId := ⟨it.timer, t.sequence⟩
  if t.repeats = true ∧ timer ∉ q.cancelingTimers then do
    let r ← { q with memory := q.memory.store it.timer (t.restart now) }.insert it.timer
    .ok r.1
  else
    q.delete it.timer

/-- The loop of `reset` over the batch. -/
def resetTimers (q : TimerQueue) (now : Timestamp) : List Entry → Except Assertion TimerQueue
  | [] => .ok q
  | it :: expired => do
      let q ← q.resetTimer it now
      q.resetTimers now expired

/-- `now` is the time the batch expired at, `clock` the one that `resetTimerfd` reads. -/
def reset (q : TimerQueue) (expired : List Entry) (now clock : Timestamp) :
    Except Assertion TimerQueue := do
  let q ← q.resetTimers now expired
  let nextExpire ←
    match q.timers.first with
    | none => .ok Timestamp.invalid
    | some it => do
        let t ← q.deref it.timer
        .ok t.expiration
  if nextExpire.valid = true then
    .ok { q with timerfd := resetTimerfd q.timerfd nextExpire clock }
  else
    .ok q

/-! ## Runs -/

/-- The locals of `handleRead`: the batch, the part of it whose callbacks have not started
yet, and whether a callback is running. -/
structure Batch where
  now : Timestamp
  expired : List Entry
  rest : List Entry
  inCallback : Bool

/-- A queue in a run, with what the run has done so far: `pending` are the timers that were
allocated but not handed to `addTimerInLoop` yet, `added` those that were, and `started` are
the timers whose callbacks were started, in order. -/
structure State where
  queue : TimerQueue
  batch : Option Batch
  pending : List Addr
  added : List TimerId
  started : List TimerId

inductive Action
  | newTimer (p : Addr) (when : Timestamp) (interval : Interval)
  | addTimerInLoop (timer : Addr) (now : Timestamp)
  | cancelInLoop (timerId : TimerId)
  | handleRead (now : Timestamp)
  | runCallback
  | finish (clock : Timestamp)

namespace State

/-- Handlers and callbacks can add and cancel: outside `handleRead`, or in a callback. -/
def userCode (s : State) : Bool :=
  match s.batch with
  | none => true
  | some b => b.inCallback

def handed (s : State) (timer : Addr) (t : Timer) (q : TimerQueue) : State :=
  { s with
    queue := q
    pending := s.pending.erase timer
    added := s.added ++ [⟨timer, t.sequence⟩] }

end State

def start : State where
  queue := TimerQueue.new
  batch := none
  pending := []
  added := []
  started := []

/-- One step. Timers can be allocated at any moment, since `addTimer` may be called on any
thread. -/
def step (s : State) : Action → Option (Except Assertion State)
  | .newTimer p when interval =>
      if s.queue.memory.Available p then
        some (.ok { s with
          queue := { s.queue with memory := s.queue.memory.new p when interval }
          pending := p :: s.pending })
      else none
  | .addTimerInLoop timer now =>
      if s.userCode = true ∧ timer ∈ s.pending then
        some (do
          let t ← s.queue.deref timer
          let q ← s.queue.addTimerInLoop timer now
          .ok (s.handed timer t q))
      else none
  | .cancelInLoop timerId =>
      if s.userCode = true then
        some (do
          let q ← s.queue.cancelInLoop timerId
          .ok { s with queue := q })
      else none
  | .handleRead now =>
      match s.batch with
      | none =>
          some (do
            let r ← s.queue.startExpired now
            .ok { s with
              queue := r.1
              batch := some { now := now, expired := r.2, rest := r.2, inCallback := false } })
      | some _ => none
  | .runCallback =>
      match s.batch with
      | some { now, expired, rest := it :: rest, inCallback := _ } =>
          some (do
            let t ← s.queue.deref it.timer
            .ok { s with
              batch := some { now := now, expired := expired, rest := rest, inCallback := true }
              started := s.started ++ [⟨it.timer, t.sequence⟩] })
      | _ => none
  | .finish clock =>
      match s.batch with
      | some { now, expired, rest := [], inCallback := _ } =>
          some (do
            let q ← { s.queue with callingExpiredTimers := false }.reset expired now clock
            .ok { s with queue := q, batch := none })
      | _ => none

/-- The runs of a timer queue. -/
def runs : System State Action Assertion where
  init := fun s => s = start
  step := step

end TimerQueue

end Zing.Net
