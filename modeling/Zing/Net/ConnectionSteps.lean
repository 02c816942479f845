import Zing.Net.Connection

set_option autoImplicit false

/-! # The steps of a connection

`Moves` lists the steps of `runs`, each with the condition under which it is possible and with
what it ends in. The invariants of a connection are proved by cases on `Moves`, and do not look at
`step` again.
-/

namespace Zing.Net.Connection

open Zing.Lib

variable {T : Type} [DecidableEq T]

/-- A step as it is taken: its action, with the condition in front of it, and how it ends. `step`
says the same by computing; there the conditions are tests, and a step that is not possible is
`none`. -/
inductive Moves (w : World T) : Action T → Except Assertion (World T) → Prop
  /-- Code of the user calls the connection on its own loop. -/
  | call {c : Call} {r : WriteResult} (hu : w.userCode = true) (hd : w.dead = false)
      (hr : c.mayWrite r = true) : Moves w (.call c r) (w.call c r)
  | startRead (hu : w.userCode = true) (hd : w.dead = false) :
      Moves w .startRead (w.perform (.ok w.conn.startReadInLoop))
  | stopRead (hu : w.userCode = true) (hd : w.dead = false) :
      Moves w .stopRead (w.perform (.ok w.conn.stopReadInLoop))
  /-- The timer of a `forceCloseWithDelay` whose connection is gone: the weak pointer is empty. -/
  | timerDead {active : List ChannelPtr} {current : Option ChannelPtr} {todo : List ChannelPtr}
      (hs : w.stack = [.user]) (hp : w.phase = .handling active current todo)
      (ht : 0 < w.timers) (hd : w.dead = true) :
      Moves w .timer (.ok { w with timers := w.timers - 1 })
  | timer {active : List ChannelPtr} {current : Option ChannelPtr} {todo : List ChannelPtr}
      (hs : w.stack = [.user]) (hp : w.phase = .handling active current todo)
      (ht : 0 < w.timers) (hd : w.dead = false) :
      Moves w .timer ({ w with timers := w.timers - 1 }.call .forceClose (.accepted 0))
  /-- The user destroys the server in a callback, where base loop and connection loop are one. -/
  | destroyServer (hu : w.userCode = true) (hl : w.sameLoop = true)
      (ha : w.serverAlive = true) : Moves w .destroyServer (.ok w.destroyServer)
  /-- The user does something to another channel of the loop. -/
  | updateOther {a : ChannelPtr} {c : Channel} (hu : w.userCode = true)
      (hc : w.mayUpdateOther a c) :
      Moves w (.updateOther a c) (do
        let r ← nested .pollerUpdate (w.poller.updateChannel a (Function.update w.heap a c))
        .ok (w.setPoller r))
  | removeOther {a : ChannelPtr} {r : Poller × Channels} (hu : w.userCode = true)
      (ha : w.isOther a = true) (hr : w.poller.removeChannel a w.heap = .ok r) :
      Moves w (.removeOther a) (.ok (w.setPoller r))
  /-- A function of the user returns to the loop, or to the function of the connection that has
  called it back. -/
  | userReturns {stack : List Frame} (hs : w.stack = .user :: stack) :
      Moves w .returns (.ok { w with stack := stack })
  | callbackReturns {stack : List Frame} (hs : w.stack = .callback :: stack) :
      Moves w .returns (.ok { w with stack := stack })
  /-- What is on the stack goes on where the user's callback has returned. -/
  | establish {stack : List Frame} (hs : w.stack = .establish :: stack) :
      Moves w .establish { w with stack := stack }.connectEstablished
  | closeCallback {stack : List Frame} (hs : w.stack = .closeCallback :: stack) :
      Moves w .closeCallback { w with stack := stack }.closeCallback
  | disconnect {stack : List Frame} (hs : w.stack = .disconnect :: stack) :
      Moves w .disconnect { w with stack := stack }.disconnect
  | remove {stack : List Frame} (hs : w.stack = .remove :: stack) :
      Moves w .remove { w with stack := stack }.channelRemove
  /-- `handleEvent` calls the next of its callbacks. -/
  | handle {h : Channel.Handler} {rest : List Channel.Handler} {stack : List Frame}
      {n : ReadResult} {r : WriteResult} (hs : w.stack = .handlers (h :: rest) :: stack)
      (hr : r.Legal w.conn.outputBuffer.readableBytes) :
      Moves w (.handle n r) ({ w with stack := .handlers rest :: stack }.handle h n r)
  | handlersDone {stack : List Frame} {n : ReadResult} {r : WriteResult}
      (hs : w.stack = .handlers [] :: stack) : Moves w (.handle n r) (.ok (w.handled stack))
  /-- `loop` goes round: a poll, its active channels one by one, the functors that were pending,
  and the next poll. -/
  | poll {active : List ChannelPtr} {revents : Events} (hp : w.phase = .polling)
      (hb : w.between = true) (hr : w.reports active revents = true) :
      Moves w (.poll active revents) (.ok { w with
        conn := { w.conn with channel := { w.conn.channel with revents := revents } }
        phase := .handling active none active })
  | nextChannel {active : List ChannelPtr} {current : Option ChannelPtr} {a : ChannelPtr}
      {todo : List ChannelPtr} (hp : w.phase = .handling active current (a :: todo))
      (hb : w.between = true) :
      Moves w .nextChannel ({ w with phase := .handling active (some a) todo }.handleEvent a)
  | handled {active : List ChannelPtr} {current : Option ChannelPtr}
      (hp : w.phase = .handling active current []) (hb : w.between = true) :
      Moves w .handled (.ok { w with phase := .calling w.pending, pending := [] })
  | nextJob {j : Job} {rest : List Job} {r : WriteResult} (hp : w.phase = .calling (j :: rest))
      (hb : w.between = true) (hr : j.mayWrite r = true) :
      Moves w (.nextJob r) ({ w with phase := .calling rest }.runJob j r)
  | jobsDone (hp : w.phase = .calling []) (hb : w.between = true) :
      Moves w .jobsDone (.ok { w with phase := .polling })
  /-- A functor of the user is posted. -/
  | queueUser : Moves w .queueUser (.ok (w.queue .user))
  /-- `shutdown`, `forceClose` and the like from another thread are three steps: the test of
  `state_`, its assignment, and the post of the functor. -/
  | test {thread : T} {c : Call} (hf : w.foreign thread = .idle) (hd : w.dead = false)
      (ht : c.test w.conn = true) :
      Moves w (.test thread c) (.ok { w with
        foreign := Function.update w.foreign thread (.tested c)
        calls := w.calls + 1 })
  | set {thread : T} {c : Call} (hf : w.foreign thread = .tested c) :
      Moves w (.set thread) (.ok { w with
        conn := c.setState w.conn
        foreign := Function.update w.foreign thread (.set c) })
  | post {thread : T} {c : Call} (hf : w.foreign thread = .set c) :
      Moves w (.post thread) (.ok ({ w with
        foreign := Function.update w.foreign thread .idle
        calls := w.calls - 1 }.queue (.conn c.functor)))
  /-- The base loop, where it is another one, removes the connection from the server. -/
  | baseRemove (hl : w.sameLoop = false) (hb : 0 < w.baseQueue) :
      Moves w .baseRemove { w with baseQueue := w.baseQueue - 1 }.removeConnectionInLoop
  | baseDestroyServer (hl : w.sameLoop = false) (ha : w.serverAlive = true) :
      Moves w .baseDestroyServer (.ok w.destroyServer)
  /-- The last `shared_ptr` is gone. -/
  | destruct (hd : w.dead = false) (hu : w.unowned = true) : Moves w .destruct w.dtor

variable {w : World T} {a : Action T} {r : Except Assertion (World T)}

/-- Take an action with one condition apart. -/
theorem moves_of_if {c : Prop} [Decidable c] {x : Except Assertion (World T)}
    (h : (if c then some x else none) = some r) (hm : c → Moves w a x) : Moves w a r := by
  obtain ⟨hc, rfl⟩ := of_guard h
  exact hm hc

/-- By cases on the action: `step` looks at the part of the state that the action is about, and
each outcome of it is one constructor. -/
theorem moves_of_step (h : step w a = some r) : Moves w a r := by
  cases a with
  | call c wr => exact moves_of_if h fun ⟨hu, hd, hr⟩ => Moves.call hu hd hr
  | startRead => exact moves_of_if h fun ⟨hu, hd⟩ => Moves.startRead hu hd
  | stopRead => exact moves_of_if h fun ⟨hu, hd⟩ => Moves.stopRead hu hd
  | timer =>
      -- a timer that holds the connection weakly runs its callback only if somebody else holds it
      simp only [step] at h
      split at h
      · rename_i active current todo hs hp
        apply moves_of_if h
        intro ht
        split
        · rename_i hd
          exact Moves.timerDead hs hp ht hd
        · rename_i hd
          exact Moves.timer hs hp ht (Bool.eq_false_iff.mpr hd)
      · cases h
  | destroyServer => exact moves_of_if h fun ⟨hu, hl, ha⟩ => Moves.destroyServer hu hl ha
  | updateOther a c => exact moves_of_if h fun ⟨hu, hc⟩ => Moves.updateOther hu hc
  | removeOther a =>
      simp only [step] at h
      split at h
      · rename_i hc
        split at h
        · rename_i r hr
          cases h
          exact Moves.removeOther hc.1 hc.2 hr
        · cases h
      · cases h
  | returns =>
      simp only [step] at h
      split at h
      · rename_i stack hs
        cases h
        exact Moves.userReturns hs
      · rename_i stack hs
        cases h
        exact Moves.callbackReturns hs
      · cases h
  | establish =>
      simp only [step] at h
      split at h
      · rename_i stack hs
        cases h
        exact Moves.establish hs
      · cases h
  | closeCallback =>
      simp only [step] at h
      split at h
      · rename_i stack hs
        cases h
        exact Moves.closeCallback hs
      · cases h
  | disconnect =>
      simp only [step] at h
      split at h
      · rename_i stack hs
        cases h
        exact Moves.disconnect hs
      · cases h
  | remove =>
      simp only [step] at h
      split at h
      · rename_i stack hs
        cases h
        exact Moves.remove hs
      · cases h
  | handle n wr =>
      simp only [step] at h
      split at h
      · rename_i stack hs
        cases h
        exact Moves.handlersDone hs
      · rename_i e rest stack hs
        exact moves_of_if h fun hr => Moves.handle hs hr
      · cases h
  | poll active revents =>
      simp only [step] at h
      split at h
      · rename_i hp
        exact moves_of_if h fun ⟨hb, hr⟩ => Moves.poll hp hb hr
      · cases h
  | nextChannel =>
      simp only [step] at h
      split at h
      · rename_i active current a todo hp
        exact moves_of_if h fun hb => Moves.nextChannel hp hb
      · cases h
  | handled =>
      simp only [step] at h
      split at h
      · rename_i active current hp
        exact moves_of_if h fun hb => Moves.handled hp hb
      · cases h
  | nextJob wr =>
      simp only [step] at h
      split at h
      · rename_i j rest hp
        exact moves_of_if h fun ⟨hb, hr⟩ => Moves.nextJob hp hb hr
      · cases h
  | jobsDone =>
      simp only [step] at h
      split at h
      · rename_i hp
        exact moves_of_if h fun hb => Moves.jobsDone hp hb
      · cases h
  -- what follows is possible in any phase, from the loop or from another thread
  | queueUser =>
      cases h
      exact Moves.queueUser
  | test thread c =>
      simp only [step] at h
      split at h
      · rename_i hf
        exact moves_of_if h fun ⟨hd, ht⟩ => Moves.test hf hd ht
      · cases h
  | set thread =>
      simp only [step] at h
      split at h
      · rename_i c hf
        cases h
        exact Moves.set hf
      · cases h
  | post thread =>
      simp only [step] at h
      split at h
      · rename_i c hf
        cases h
        exact Moves.post hf
      · cases h
  | baseRemove => exact moves_of_if h fun ⟨hl, hb⟩ => Moves.baseRemove hl hb
  | baseDestroyServer => exact moves_of_if h fun ⟨hl, ha⟩ => Moves.baseDestroyServer hl ha
  | destruct => exact moves_of_if h fun ⟨hd, hu⟩ => Moves.destruct hd hu

/-- A step of a run that does not fail. -/
theorem next_moves {w' : World T} (hn : runs.Next w a w') : Moves w a (.ok w') :=
  moves_of_step hn

end Zing.Net.Connection
