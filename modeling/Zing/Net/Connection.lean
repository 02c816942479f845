import Mathlib
import Zing.Lib.System
import Zing.Net.DefaultPoller
import Zing.Net.TcpConnection

set_option autoImplicit false

/-! # A connection among its threads

A `TcpConnection` with everything that acts on it: the thread of its loop, with the event
handlers and functors of that loop; the `TcpServer` that owns it, on the same loop or on
another; and other threads, whose calls are cut where they can be interrupted, between the
test of `state_`, the `setState` and the posting of a functor. All that another thread does to
the connection is this `setState(kDisconnecting)`, so a function of the loop thread is one step
up to its next callback, except for `connectDestroyed`: a `setState` behind its test is
overwritten.

A callback of the user may call the functions of the connection again, and may destroy the
server. So the loop thread has a stack of frames: code of the user is running when the
topmost frame is `user` or `callback`, and a frame below is what is left to do in a function
of the library that has called it.

Of the input only its effect on the connection is modelled: whether a read has returned data,
end of file or an error.
-/

namespace Zing.Net.Connection

open Zing.Lib
open TcpConnection (StateE Functor Effect)

/-! ## State -/

/-- The functors in the queue of the connection's loop. -/
inductive Job
  | connectEstablished
  | conn (f : Functor)
  | user
  deriving DecidableEq, Repr

/-- What the kernel may answer to the write of a functor. -/
def Job.mayWrite : Job → WriteResult → Bool
  | .conn (.sendInLoop message), r => r.Legal message.length
  | _, _ => true

/-- What the loop thread is in the middle of. -/
inductive Frame
  /-- A handler or functor of the user. -/
  | user
  /-- A callback of the connection. -/
  | callback
  /-- `newConnection`, in front of `connectEstablished`. -/
  | establish
  /-- `handleClose`, in front of `closeCallback_`. -/
  | closeCallback
  /-- `connectDestroyed`, behind its test of `state_`. -/
  | disconnect
  /-- `connectDestroyed`, in front of `channel_->remove()`. -/
  | remove
  /-- `handleEventWithGuard`, with the callbacks that it has still to invoke. -/
  | handlers (rest : List Channel.Handler)
  deriving DecidableEq, Repr

/-- Where `loop()` is: polling; handling the active channels, of which `todo` are left; or
calling functors, of which `rest` are left. -/
inductive Phase
  | polling
  | handling (active : List ChannelPtr) (current : Option ChannelPtr) (todo : List ChannelPtr)
  | calling (rest : List Job)

/-- The calls that any thread may make. -/
inductive Call
  | shutdown
  | forceClose
  | forceCloseWithDelay
  | send (message : List Byte)

/-- Where another thread is: behind the test of `state_` of a call, or behind its `setState`
and in front of the posting of its functor. -/
inductive Foreign
  | idle
  | tested (c : Call)
  | set (c : Call)

inductive Assertion
  | tcp (a : TcpConnection.Assertion)
  /-- `assert(isNoneEvent())` in `Channel::remove`. -/
  | noneEvent
  /-- The assertion of `EventLoop::removeChannel`. -/
  | activeChannel
  | pollerUpdate (a : Poller.Assertion)
  | pollerRemove (a : Poller.Assertion)
  /-- One of the assertions of `~Channel`. -/
  | channelDtor
  /-- `assert(n == 1)` in `removeConnectionInLoop`. -/
  | erase
  /-- The use of a `TcpServer` that has been destroyed. -/
  | deadServer
  /-- The use of a `TcpConnection` that has been destroyed. -/
  | deadConnection
  deriving DecidableEq, Repr

/-- The connection and its surroundings. `self` is the address of its channel, and `others`
are the channel objects at the other addresses; `baseQueue` counts the functors
`removeConnectionInLoop` in the queue of the server's loop, if that is another one; `timers`
counts the delayed closes; `calls` the calls of other threads that are under way;
`connections` says that the server's map has the connection. The rest records what has
happened: whether the connection is destructed, the values of `connected()` at each call of
`connectionCallback_`, the runs of the body of `handleClose`, and whether `connectDestroyed`
has run. -/
structure World (T : Type) where
  conn : TcpConnection
  self : ChannelPtr
  others : Channels
  poller : Poller
  sameLoop : Bool
  phase : Phase
  pending : List Job
  stack : List Frame
  baseQueue : Nat
  timers : Nat
  foreign : T → Foreign
  calls : Nat
  connections : Bool
  serverAlive : Bool
  dead : Bool
  callbacks : List Bool
  closes : Nat
  destroyed : Bool

variable {T : Type}

namespace World

/-- The channel objects of the loop. -/
def heap (w : World T) : Channels := Function.update w.others w.self w.conn.channel

/-- The functors that are queued, in the order in which they will be called. -/
def jobs (w : World T) : List Job :=
  match w.phase with
  -- `doPendingFunctors` has swapped these out; what is queued now runs in the next round
  | .calling rest => rest ++ w.pending
  | _ => w.pending

/-- Code of the user is running on the loop thread. -/
def userCode (w : World T) : Bool :=
  match w.stack with
  | .user :: _ => true
  | .callback :: _ => true
  | _ => false

/-- The loop thread is between two handlers or functors. -/
def between (w : World T) : Bool := w.stack.isEmpty

def queue (w : World T) (j : Job) : World T := { w with pending := w.pending ++ [j] }

def setPoller (w : World T) (r : Poller × Channels) : World T :=
  { w with
    poller := r.1
    others := r.2
    conn := { w.conn with channel := r.2 w.self } }

/-! ## Effects of the connection's functions -/

def updateChannel (w : World T) : Except Assertion (World T) := do
  let r ← nested .pollerUpdate (w.poller.updateChannel w.self w.heap)
  .ok (w.setPoller r)

def applyEffect (w : World T) : Effect → Except Assertion (World T)
  | .write _ _ => .ok w
  | .shutdownWrite => .ok w
  | .queueInLoop f => .ok (w.queue (.conn f))
  | .updateChannel => w.updateChannel

def applyEffects (w : World T) : List Effect → Except Assertion (World T)
  | [] => .ok w
  | e :: es => do
      let w ← w.applyEffect e
      w.applyEffects es

/-- Run a function of the connection, and do what it does to the outside. -/
def perform (w : World T) (r : Except TcpConnection.Assertion (TcpConnection × List Effect)) :
    Except Assertion (World T) := do
  let r ← nested .tcp r
  { w with conn := r.1 }.applyEffects r.2

/-! ## Functions with callbacks -/

/-- `connectionCallback_(shared_from_this())` -/
def connectionCallback (w : World T) : World T :=
  { w with
    callbacks := w.callbacks ++ [decide (w.conn.state = .kConnected)]
    stack := .callback :: w.stack }

def connectEstablished (w : World T) : Except Assertion (World T) := do
  let w ← w.perform w.conn.connectEstablished
  .ok w.connectionCallback

def handleClose (w : World T) : Except Assertion (World T) := do
  let w ← w.perform w.conn.handleClose
  -- `connectionCallback_` first; `closeCallback_` is the frame below it
  .ok { w with closes := w.closes + 1, stack := .closeCallback :: w.stack }.connectionCallback

def forceCloseInLoop (w : World T) : Except Assertion (World T) :=
  if w.conn.forceCloseTest = true then w.handleClose else .ok w

/-- `connectDestroyed` with its test of `state_`, which another thread may overtake. -/
def connectDestroyed (w : World T) : World T :=
  if w.conn.state = .kConnected then { w with stack := .disconnect :: w.stack }
  else { w with stack := .remove :: w.stack }

/-- The branch of `connectDestroyed` for a connected connection. -/
def disconnect (w : World T) : Except Assertion (World T) := do
  let w ← w.perform (.ok w.conn.connectDestroyedConnected)
  .ok { w with stack := .remove :: w.stack }.connectionCallback

/-- The assertion of `EventLoop::removeChannel`: while events are handled, only the current
channel may be removed, or one that is not active. -/
def mayRemove (w : World T) : Bool :=
  match w.phase with
  | .handling active current _ => decide (current = some w.self) || decide (w.self ∉ active)
  | _ => true

/-- `addedToLoop_ = false` in `Channel::remove`. -/
def clearAdded (w : World T) : World T :=
  { w with conn := { w.conn with channel := { w.conn.channel with addedToLoop := false } } }

/-- `channel_->remove()` -/
def channelRemove (w : World T) : Except Assertion (World T) := do
  check (w.conn.channel.isNoneEvent = true) .noneEvent
  let w := w.clearAdded
  check (w.mayRemove = true) .activeChannel
  let r ← nested .pollerRemove (w.poller.removeChannel w.self w.heap)
  .ok { w.setPoller r with destroyed := true }

def removeConnectionInLoop (w : World T) : Except Assertion (World T) := do
  check (w.serverAlive = true) .deadServer
  check (w.connections = true) .erase
  .ok ({ w with connections := false }.queue (.conn .connectDestroyed))

/-- `closeCallback_`, which is `TcpServer::removeConnection`. -/
def closeCallback (w : World T) : Except Assertion (World T) :=
  if w.sameLoop = true then w.removeConnectionInLoop
  else do
    check (w.serverAlive = true) .deadServer
    .ok { w with baseQueue := w.baseQueue + 1 }

/-- `~TcpServer`, as far as it concerns the connection. -/
def destroyServer (w : World T) : World T :=
  let w' := { w with serverAlive := false, connections := false }
  if w.connections = true then
    -- `runInLoop` calls `connectDestroyed` at once on this thread
    if w.sameLoop = true then w'.connectDestroyed else w'.queue (.conn .connectDestroyed)
  else w'

/-- Nobody owns the connection any more: the server's map, the queued functors and the
functions that are running. Owners among the user's copies are left to the run. -/
def unowned (w : World T) : Bool :=
  !w.connections && w.baseQueue = 0 && w.calls = 0
    && w.stack.all (· = .user)
    && w.jobs.all fun j =>
      match j with
      | .user => true
      | .connectEstablished => false
      -- bound to the raw `this`
      | .conn (.sendInLoop _) => true
      | .conn .shutdownInLoop => true
      | .conn .startReadInLoop => true
      | .conn .stopReadInLoop => true
      | .conn .forceCloseTimer => true
      -- bound to `shared_from_this()`, or to the pointer of the server
      | .conn _ => false

/-- `~TcpConnection`, with the `~Channel` that it ends with. -/
def dtor (w : World T) : Except Assertion (World T) := do
  nested .tcp w.conn.dtor
  check (w.conn.channel.eventHandling = false) .channelDtor
  check (w.conn.channel.addedToLoop = false) .channelDtor
  check (w.poller.hasChannel w.self w.heap = false) .channelDtor
  .ok { w with dead := true }

end World

/-! ## Calls -/

namespace Call

/-- The test of `state_` at the beginning. -/
def test : Call → TcpConnection → Bool
  | shutdown, conn => conn.shutdownTest
  | forceClose, conn => conn.forceCloseTest
  | forceCloseWithDelay, conn => conn.forceCloseTest
  | send _, conn => conn.state = .kConnected

/-- The `setState(kDisconnecting)` behind the test, which `send` does not have. -/
def setState : Call → TcpConnection → TcpConnection
  | send _, conn => conn
  | _, conn => conn.setState .kDisconnecting

/-- What the kernel may answer to the write of a call. -/
def mayWrite : Call → WriteResult → Bool
  | send message, r => r.Legal message.length
  | _, _ => true

/-- The functor that another thread posts. -/
def functor : Call → Functor
  | shutdown => .shutdownInLoop
  | forceClose => .forceCloseInLoop
  | forceCloseWithDelay => .forceCloseTimer
  | send message => .sendInLoop message

end Call

namespace World

/-- What a call does on the loop thread behind its test; `r` is what the kernel answers to a
write. -/
def callInLoop (w : World T) (c : Call) (r : WriteResult) : Except Assertion (World T) :=
  let w := { w with conn := c.setState w.conn }
  match c with
  | .shutdown => w.perform (.ok (w.conn, w.conn.shutdownInLoop))
  -- `queueInLoop`, also on the loop thread
  | .forceClose => .ok (w.queue (.conn .forceCloseInLoop))
  | .forceCloseWithDelay => .ok { w with timers := w.timers + 1 }
  | .send message => w.perform (w.conn.sendInLoop message r)

/-- A call on the loop thread. -/
def call (w : World T) (c : Call) (r : WriteResult) : Except Assertion (World T) :=
  if c.test w.conn = true then w.callInLoop c r else .ok w

/-- A functor of the queue is called. The functors that are bound to the raw `this` of the
connection use it whether or not it is still there. -/
def runJob (w : World T) (j : Job) (r : WriteResult) : Except Assertion (World T) :=
  match j with
  | .user => .ok { w with stack := .user :: w.stack }
  | .connectEstablished => w.connectEstablished
  | .conn .forceCloseInLoop => w.forceCloseInLoop
  -- `runAfter` of another thread has posted `addTimerInLoop`
  | .conn .forceCloseTimer => .ok { w with timers := w.timers + 1 }
  | .conn .connectDestroyed => .ok w.connectDestroyed
  | .conn .writeCompleteCallback => .ok { w with stack := .callback :: w.stack }
  | .conn (.highWaterMarkCallback _) => .ok { w with stack := .callback :: w.stack }
  | .conn (.sendInLoop message) => do
      check (w.dead = false) .deadConnection
      w.perform (w.conn.sendInLoop message r)
  | .conn .shutdownInLoop => do
      check (w.dead = false) .deadConnection
      w.perform (.ok (w.conn, w.conn.shutdownInLoop))
  | .conn .startReadInLoop => do
      check (w.dead = false) .deadConnection
      w.perform (.ok w.conn.startReadInLoop)
  | .conn .stopReadInLoop => do
      check (w.dead = false) .deadConnection
      w.perform (.ok w.conn.stopReadInLoop)

end World

/-! ## Handlers -/

/-- What `readFd` returns in `handleRead`. -/
inductive ReadResult
  | data
  | eof
  | error

namespace World

/-- `handleRead` -/
def handleRead (w : World T) : ReadResult → Except Assertion (World T)
  | .data => .ok { w with stack := .callback :: w.stack }
  | .eof => w.handleClose
  | .error => .ok w

/-- The callback of the channel for one kind of event. -/
def handle (w : World T) (h : Channel.Handler) (n : ReadResult) (r : WriteResult) :
    Except Assertion (World T) :=
  match h with
  | .close => w.handleClose
  -- `handleError` only logs
  | .error => .ok w
  | .read => w.handleRead n
  | .write => w.perform (w.conn.handleWrite r)

/-- `handleEvent` of the next active channel begins. -/
def handleEvent (w : World T) (a : ChannelPtr) : Except Assertion (World T) :=
  if a = w.self then do
    check (w.dead = false) .deadConnection
    .ok { w with
      conn := { w.conn with channel := { w.conn.channel with eventHandling := true } }
      stack := .handlers w.conn.channel.handlers :: w.stack }
  else
    -- a channel of the user, or of the acceptor
    .ok { w with stack := .user :: w.stack }

/-- The last statement of `handleEventWithGuard`. -/
def handled (w : World T) (stack : List Frame) : World T :=
  { w with
    conn := { w.conn with channel := { w.conn.channel with eventHandling := false } }
    stack := stack }

end World

/-! ## Runs -/

/-- The steps: first those of the loop thread in code of the user, then those in which it goes
on, then those of other threads, and last the destruction of the connection. -/
inductive Action (T : Type)
  | call (c : Call) (r : WriteResult)
  | startRead
  | stopRead
  | timer
  | destroyServer
  | updateOther (a : ChannelPtr) (c : Channel)
  | removeOther (a : ChannelPtr)
  | returns
  | establish
  | closeCallback
  | disconnect
  | remove
  | handle (n : ReadResult) (r : WriteResult)
  | poll (active : List ChannelPtr) (revents : Events)
  | nextChannel
  | handled
  | nextJob (r : WriteResult)
  | jobsDone
  | queueUser
  | test (thread : T) (c : Call)
  | set (thread : T)
  | post (thread : T)
  | baseRemove
  | baseDestroyServer
  | destruct

/-- The calls of `poll` report channels that the poller knows, each once, and this channel
only with events that it may report. -/
def World.reports (w : World T) (active : List ChannelPtr) (revents : Events) : Bool :=
  decide active.Nodup && active.all (fun a => w.poller.hasChannel a w.heap)
    && (decide (w.self ∉ active)
      || w.poller.watches w.conn.channel.fd && w.conn.channel.mayReport revents)

/-- Another channel of the loop, with another descriptor. -/
def World.isOther (w : World T) (a : ChannelPtr) : Bool :=
  decide (a ≠ w.self) && decide ((w.others a).fd ≠ w.conn.channel.fd)

/-- Other channels are used as `Channel` uses them: they change their events only, and are
updated when new or registered. -/
def World.mayUpdateOther (w : World T) (a : ChannelPtr) (c : Channel) : Prop :=
  w.isOther a = true ∧ c.fd = (w.others a).fd ∧ c.index = (w.others a).index ∧
    (w.poller.Fresh w.heap a ∨ w.poller.Registered w.heap a)

instance (w : World T) (a : ChannelPtr) (c : Channel) : Decidable (w.mayUpdateOther a c) :=
  inferInstanceAs (Decidable (_ ∧ _ ∧ _ ∧ ((_ ∧ _) ∨ _ = _)))

variable [DecidableEq T]

def step (w : World T) : Action T → Option (Except Assertion (World T))
  | .call c r =>
      if w.userCode = true ∧ w.dead = false ∧ c.mayWrite r = true then some (w.call c r)
      else none
  | .startRead =>
      if w.userCode = true ∧ w.dead = false then some (w.perform (.ok w.conn.startReadInLoop))
      else none
  | .stopRead =>
      if w.userCode = true ∧ w.dead = false then some (w.perform (.ok w.conn.stopReadInLoop))
      else none
  | .timer =>
      -- the callback of a delayed close, if the weak pointer can still be locked
      match w.stack, w.phase with
      | [.user], .handling _ _ _ =>
          if 0 < w.timers then
            let w := { w with timers := w.timers - 1 }
            some (if w.dead = true then .ok w else w.call .forceClose (.accepted 0))
          else none
      | _, _ => none
  | .destroyServer =>
      if w.userCode = true ∧ w.sameLoop = true ∧ w.serverAlive = true then
        some (.ok w.destroyServer)
      else none
  | .updateOther a c =>
      if w.userCode = true ∧ w.mayUpdateOther a c then
        some (do
          let r ← nested .pollerUpdate (w.poller.updateChannel a (Function.update w.heap a c))
          .ok (w.setPoller r))
      else none
  | .removeOther a =>
      if w.userCode = true ∧ w.isOther a = true then
        -- only removals whose own assertions hold
        match w.poller.removeChannel a w.heap with
        | .ok r => some (.ok (w.setPoller r))
        | .error _ => none
      else none
  | .returns =>
      match w.stack with
      | .user :: stack => some (.ok { w with stack := stack })
      | .callback :: stack => some (.ok { w with stack := stack })
      | _ => none
  | .establish =>
      match w.stack with
      | .establish :: stack => some { w with stack := stack }.connectEstablished
      | _ => none
  | .closeCallback =>
      match w.stack with
      | .closeCallback :: stack => some { w with stack := stack }.closeCallback
      | _ => none
  | .disconnect =>
      match w.stack with
      | .disconnect :: stack => some { w with stack := stack }.disconnect
      | _ => none
  | .remove =>
      match w.stack with
      | .remove :: stack => some { w with stack := stack }.channelRemove
      | _ => none
  | .handle n r =>
      match w.stack with
      -- all callbacks of the channel have returned
      | .handlers [] :: stack => some (.ok (w.handled stack))
      | .handlers (h :: rest) :: stack =>
          if r.Legal w.conn.outputBuffer.readableBytes then
            some ({ w with stack := .handlers rest :: stack }.handle h n r)
          else none
      | _ => none
  | .poll active revents =>
      match w.phase with
      | .polling =>
          if w.between = true ∧ w.reports active revents = true then
            some (.ok { w with
              conn := { w.conn with channel := { w.conn.channel with revents := revents } }
              phase := .handling active none active })
          else none
      | _ => none
  | .nextChannel =>
      match w.phase with
      | .handling active _ (a :: todo) =>
          if w.between = true then
            some ({ w with phase := .handling active (some a) todo }.handleEvent a)
          else none
      | _ => none
  | .handled =>
      match w.phase with
      -- `currentActiveChannel_ = nullptr`, and the queue is swapped
      | .handling _ _ [] =>
          if w.between = true then
            some (.ok { w with phase := .calling w.pending, pending := [] })
          else none
      | _ => none
  | .nextJob r =>
      match w.phase with
      | .calling (j :: rest) =>
          if w.between = true ∧ j.mayWrite r = true then
            some ({ w with phase := .calling rest }.runJob j r)
          else none
      | _ => none
  | .jobsDone =>
      match w.phase with
      | .calling [] => if w.between = true then some (.ok { w with phase := .polling }) else none
      | _ => none
  | .queueUser => some (.ok (w.queue .user))
  | .test thread c =>
      match w.foreign thread with
      | .idle =>
          if w.dead = false ∧ c.test w.conn = true then
            some (.ok { w with
              foreign := Function.update w.foreign thread (.tested c)
              calls := w.calls + 1 })
          else none
      | _ => none
  | .set thread =>
      match w.foreign thread with
      | .tested c =>
          some (.ok { w with
            conn := c.setState w.conn
            foreign := Function.update w.foreign thread (.set c) })
      | _ => none
  | .post thread =>
      match w.foreign thread with
      | .set c =>
          some (.ok ({ w with
            foreign := Function.update w.foreign thread .idle
            calls := w.calls - 1 }.queue (.conn c.functor)))
      | _ => none
  | .baseRemove =>
      if w.sameLoop = false ∧ 0 < w.baseQueue then
        some { w with baseQueue := w.baseQueue - 1 }.removeConnectionInLoop
      else none
  | .baseDestroyServer =>
      if w.sameLoop = false ∧ w.serverAlive = true then some (.ok w.destroyServer) else none
  | .destruct => if w.dead = false ∧ w.unowned = true then some w.dtor else none

/-- A connection that `newConnection` has made. If its loop is the server's loop, that thread
goes on to `connectEstablished`, in the handler of the acceptor's channel; else the functor
has been posted to its loop. -/
structure Start (w : World T) : Prop where
  state : w.conn.state = .kConnecting
  channel : w.conn.channel = Channel.new w.conn.channel.fd
  poller : w.poller.WF w.heap
  fresh : w.poller.Fresh w.heap w.self
  control : (w.sameLoop = true ∧ w.stack = [.establish, .user] ∧ w.pending = [] ∧
      ∃ active acceptor todo, w.phase = .handling active (some acceptor) todo ∧
        w.self ∉ active ∧ ∀ a ∈ todo, a ∈ active) ∨
    (w.sameLoop = false ∧ w.stack = [] ∧ w.pending = [.connectEstablished] ∧
      w.phase = .polling)
  baseQueue : w.baseQueue = 0
  timers : w.timers = 0
  foreign : ∀ thread, w.foreign thread = .idle
  calls : w.calls = 0
  server : w.connections = true ∧ w.serverAlive = true
  history : w.dead = false ∧ w.callbacks = [] ∧ w.closes = 0 ∧ w.destroyed = false

/-- The runs of one connection. -/
def runs : System (World T) (Action T) Assertion where
  init := Start
  step := step

/-- A connection on the descriptor 7, with its channel at the address 2, that the handler of
the channel at the address 1 has just accepted. -/
def accepted (usePoll : Bool) : World T where
  conn := TcpConnection.new 7
  self := 2
  others := fun _ => Channel.new 3
  poller := Poller.newDefaultPoller usePoll
  sameLoop := true
  phase := .handling [1] (some 1) []
  pending := []
  stack := [.establish, .user]
  baseQueue := 0
  timers := 0
  foreign := fun _ => .idle
  calls := 0
  connections := true
  serverAlive := true
  dead := false
  callbacks := []
  closes := 0
  destroyed := false

omit [DecidableEq T] in
theorem accepted_start (usePoll : Bool) : Start (accepted (T := T) usePoll) where
  state := rfl
  channel := rfl
  poller := Poller.newDefaultPoller_wf ..
  fresh := by cases usePoll <;> exact ⟨rfl, rfl⟩
  control := by
    refine Or.inl ⟨rfl, rfl, rfl, [1], 1, [], rfl, ?_, ?_⟩
    · intro h
      cases List.mem_singleton.mp h
    · intro a h
      cases h
  baseQueue := rfl
  timers := rfl
  foreign := fun _ => rfl
  calls := rfl
  server := ⟨rfl, rfl⟩
  history := ⟨rfl, rfl, rfl, rfl⟩

end Zing.Net.Connection
