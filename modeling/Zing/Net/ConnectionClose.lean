import Zing.Net.ConnectionEffects

set_option autoImplicit false

/-! # Closing a connection among threads

`Close` is the close of a connection as its server sees it: how often the body of
`handleClose` has run, how many removals from the server's map are on their way, and whether
the map still has the connection. Its steps keep `Close.Once`, by which a connection is closed
once and found in the map when it is removed.

The connection takes such steps as long as no other thread's `setState(kDisconnecting)`
overwrites `kDisconnected`. The test of `state_` in front of that `setState` does not exclude
it, since the loop thread can close the connection in between.
-/

namespace Zing.Net.Connection

open Zing.Lib
open TcpConnection (Functor Effect)

/-! ## The close of a connection -/

/-- How far the close of a connection has got: how often the body of `handleClose` has run, how
many removals are on their way, and whether the server still has it. -/
structure Close where
  disconnected : Bool
  closes : Nat
  removals : Nat
  connections : Bool
  serverAlive : Bool

namespace Close

/-- What a step of the connection may do to this. -/
inductive Step : Close → Close → Prop
  /-- Anything that does not leave `kDisconnected`. -/
  | other (c : Close) (d : Bool) (h : c.disconnected = true → d = true) :
      Step c { c with disconnected := d }
  /-- The body of `handleClose` runs, and the removal sets off. -/
  | close (c : Close) (h : c.disconnected = false) :
      Step c { c with disconnected := true, closes := c.closes + 1, removals := c.removals + 1 }
  /-- A removal arrives. -/
  | remove (c : Close) (n : Nat) (h : c.removals = n + 1) :
      Step c { c with removals := n, connections := false }
  | destroyServer (c : Close) : Step c { c with connections := false, serverAlive := false }

/-- The connection is closed at most once, and in the map until its removal arrives. -/
structure Once (c : Close) : Prop where
  disconnected : 0 < c.closes → c.disconnected = true
  closes : c.closes ≤ 1
  removals : c.serverAlive = true → c.removals + (if c.connections = true then 0 else 1) = c.closes

/-- A removal arrives at a server that does not have the connection. -/
def Missing (c : Close) : Prop :=
  0 < c.removals ∧ c.serverAlive = true ∧ c.connections = false

variable {c c' : Close}

theorem Step.disconnected (hs : Step c c') (h : c.disconnected = true) :
    c'.disconnected = true := by
  cases hs with
  | other d hd => exact hd h
  | close _ => rfl
  | remove _ _ => exact h
  | destroyServer => exact h

theorem Once.not_missing (ho : c.Once) : ¬ c.Missing := by
  rintro ⟨hpos, halive, hconn⟩
  have hrem := ho.removals halive
  rw [hconn, if_neg Bool.false_ne_true] at hrem
  have hle := ho.closes
  omega

theorem Once.step (ho : c.Once) (hs : Step c c') : c'.Once := by
  cases hs with
  | other d hd =>
      exact ⟨fun hpos => hd (ho.disconnected hpos), ho.closes, ho.removals⟩
  | close hd =>
      -- a connection that has been closed is disconnected
      have hzero : c.closes = 0 := by
        by_contra hne
        rw [ho.disconnected (Nat.pos_of_ne_zero hne)] at hd
        cases hd
      refine ⟨fun _ => rfl, ?_, ?_⟩
      · show c.closes + 1 ≤ 1
        omega
      · intro halive
        have hrem := ho.removals halive
        show c.removals + 1 + (if c.connections = true then 0 else 1) = c.closes + 1
        omega
  | remove n hn =>
      refine ⟨ho.disconnected, ho.closes, ?_⟩
      intro halive
      have hrem := ho.removals halive
      have hle := ho.closes
      show n + 1 = c.closes
      split at hrem <;> omega
  | destroyServer =>
      refine ⟨ho.disconnected, ho.closes, ?_⟩
      intro halive
      cases halive

end Close

/-! ## Each step of the connection is a step of the close -/

variable {T : Type} {w w' : World T}

namespace World

/-- The calls of `closeCallback_` and the functors `removeConnectionInLoop` that are due. -/
def removals (w : World T) : Nat := w.stack.count .closeCallback + w.baseQueue

def close (w : World T) : Close where
  disconnected := w.conn.state = .kDisconnected
  closes := w.closes
  removals := w.removals
  connections := w.connections
  serverAlive := w.serverAlive

/-- `r` is the end of a step from `w` that is a step of the close, and that fails to find the
connection only where a removal arrives too late. -/
def Follows (w : World T) (r : Except Assertion (World T)) : Prop :=
  Ends (fun w' => Close.Step w.close w'.close) (fun e => e = .erase → w.close.Missing) r

theorem follows_other (hstate : w.conn.state = .kDisconnected → w'.conn.state = .kDisconnected)
    (h : w'.close = { w.close with disconnected := w'.close.disconnected }) :
    w.Follows (.ok w') := by
  show Close.Step w.close w'.close
  rw [h]
  apply Close.Step.other
  intro hd
  exact decide_eq_true (hstate (of_decide_eq_true hd))

theorem follows_close (hopen : w.conn.state ≠ .kDisconnected)
    (h : w'.close = { w.close with
      disconnected := true, closes := w.closes + 1, removals := w.removals + 1 }) :
    w.Follows (.ok w') := by
  have hstep := Close.Step.close w.close (decide_eq_false hopen)
  show Close.Step w.close w'.close
  rw [h]
  exact hstep

/-- A step that is none of the close. -/
theorem follows_same (h : w'.close = w.close) : w.Follows (.ok w') := by
  show Close.Step w.close w'.close
  rw [h]
  exact Close.Step.other w.close w.close.disconnected id

theorem Follows.congr {r : Except Assertion (World T)} (hf : w'.Follows r)
    (h : w'.close = w.close) : w.Follows r := by
  unfold Follows at hf ⊢
  rw [← h]
  exact hf

/-- An assertion that is not the one on the server's map. -/
theorem follows_check {c : Prop} [Decidable c] {e : Assertion}
    {f : Unit → Except Assertion (World T)} (he : e ≠ .erase) (hf : w.Follows (f ())) :
    w.Follows (check c e >>= f) :=
  Ends.check_any (fun h => absurd h he) hf

theorem perform_cases (w : World T)
    (r : Except TcpConnection.Assertion (TcpConnection × List Effect)) :
    Ends (fun w' => ∃ conn es c p o, r = .ok (conn, es) ∧
        w' = w.performed { conn with channel := c } p o (es.filterMap job))
      (fun e => e = .erase → w.close.Missing) (w.perform r) := by
  apply (w.perform_ends r).mono fun _ h => h
  rintro e (⟨a, -, rfl⟩ | ⟨a, rfl⟩) he
  · cases he
  · cases he

/-- A function of the connection that does not leave `kDisconnected`. -/
theorem perform_follows {r : Except TcpConnection.Assertion (TcpConnection × List Effect)}
    (hr : ∀ conn es, r = .ok (conn, es) → conn.state = w.conn.state) :
    w.Follows (w.perform r) := by
  apply (w.perform_cases r).mono _ fun _ h => h
  rintro _ ⟨conn, es, c, p, o, hok, rfl⟩
  exact follows_other (hr conn es hok).trans rfl

theorem connectEstablished_follows (w : World T) : w.Follows w.connectEstablished := by
  apply (w.perform_cases _).bind
  rintro _ ⟨conn, es, c, p, o, hok, rfl⟩
  obtain ⟨_, hstate, hok⟩ := bind_eq_ok.mp hok
  cases hok
  refine follows_other ?_ rfl
  intro hd
  rw [check_eq_ok.mp hstate] at hd
  cases hd

theorem handleClose_follows (w : World T) : w.Follows w.handleClose := by
  apply (w.perform_cases _).bind
  rintro _ ⟨conn, es, c, p, o, hok, rfl⟩
  obtain ⟨_, hstate, hok⟩ := bind_eq_ok.mp hok
  cases hok
  have hremovals : (Frame.callback :: .closeCallback :: w.stack).count .closeCallback
      + w.baseQueue = w.removals + 1 := by
    rw [List.count_cons_of_ne (by decide), List.count_cons_self, Nat.add_right_comm]
    rfl
  refine follows_close ?_ ?_
  · intro hd
    rw [hd] at hstate
    rcases check_eq_ok.mp hstate with hs | hs <;> cases hs
  · rw [← hremovals]
    rfl

theorem forceCloseInLoop_follows (w : World T) : w.Follows w.forceCloseInLoop := by
  unfold forceCloseInLoop
  split
  · exact handleClose_follows w
  · exact follows_same rfl

theorem disconnect_follows (w : World T) : w.Follows w.disconnect := by
  apply (w.perform_cases _).bind
  rintro _ ⟨conn, es, c, p, o, hok, rfl⟩
  cases hok
  exact follows_other (fun _ => rfl) rfl

theorem connectDestroyed_close (w : World T) : w.connectDestroyed.close = w.close := by
  unfold connectDestroyed
  split
  · rfl
  · rfl

theorem channelRemove_follows (w : World T) : w.Follows w.channelRemove := by
  apply follows_check (by decide)
  apply follows_check (by decide)
  apply (ends_nested _ fun _ he => by cases he).bind
  rintro r -
  exact follows_same rfl

theorem startReadInLoop_follows (w : World T) :
    w.Follows (w.perform (.ok w.conn.startReadInLoop)) := by
  apply perform_follows
  intro conn es hok
  exact (TcpConnection.startReadInLoop_spec (Except.ok.inj hok)).1

theorem stopReadInLoop_follows (w : World T) :
    w.Follows (w.perform (.ok w.conn.stopReadInLoop)) := by
  apply perform_follows
  intro conn es hok
  exact (TcpConnection.stopReadInLoop_spec (Except.ok.inj hok)).1

/-- A removal arrives: `w` is the state in which it still was on its way. -/
theorem removeConnectionInLoop_follows {v : World T} (hv : v.close = { w.close with
      removals := v.removals }) (hremovals : w.removals = v.removals + 1) :
    w.Follows v.removeConnectionInLoop := by
  have halive : v.serverAlive = w.serverAlive := congrArg Close.serverAlive hv
  have hconn : v.connections = w.connections := congrArg Close.connections hv
  apply Ends.check (fun _ he => by cases he)
  intro hserver
  apply Ends.check
  · intro hc _
    refine ⟨?_, halive.symm.trans hserver, ?_⟩
    · show 0 < w.removals
      omega
    · rw [hconn] at hc
      exact Bool.eq_false_iff.mpr hc
  · intro _
    have hstep := Close.Step.remove w.close v.removals hremovals
    have heq : { v.close with connections := false } =
        { w.close with removals := v.removals, connections := false } := by
      rw [hv]
    rw [← heq] at hstep
    exact hstep

theorem destroyServer_follows (w : World T) : w.Follows (.ok w.destroyServer) := by
  have hstep := Close.Step.destroyServer w.close
  unfold destroyServer
  simp only
  split
  · split
    · show Close.Step w.close (connectDestroyed _).close
      rw [connectDestroyed_close]
      exact hstep
    · exact hstep
  · exact hstep

theorem callInLoop_follows (w : World T) (c : Call) (r : WriteResult)
    (ht : c.test w.conn = true) : w.Follows (w.callInLoop c r) := by
  have hopen : w.conn.state ≠ .kDisconnected := by
    intro hd
    cases c <;>
      simp [Call.test, TcpConnection.shutdownTest, TcpConnection.forceCloseTest, hd] at ht
  cases c with
  | shutdown =>
      have hclose : ({ w with conn := w.conn.setState .kDisconnecting } : World T).close =
          w.close := by
        simp only [close, TcpConnection.setState, decide_eq_false hopen]
        rfl
      refine Follows.congr (perform_follows ?_) hclose
      intro conn es hok
      cases hok
      rfl
  | forceClose => exact follows_other (fun hd => absurd hd hopen) rfl
  | forceCloseWithDelay => exact follows_other (fun hd => absurd hd hopen) rfl
  | send message =>
      exact perform_follows fun conn es hok => (TcpConnection.sendInLoop_writes hok).state

theorem call_follows (w : World T) (c : Call) (r : WriteResult) : w.Follows (w.call c r) := by
  unfold World.call
  split
  · exact callInLoop_follows w c r ‹_›
  · exact follows_same rfl

theorem runJob_follows (w : World T) (j : Job) (r : WriteResult) : w.Follows (w.runJob j r) := by
  cases j with
  | user => exact follows_same rfl
  | connectEstablished => exact connectEstablished_follows w
  | conn f =>
    cases f with
    | forceCloseInLoop => exact forceCloseInLoop_follows w
    | forceCloseTimer => exact follows_same rfl
    | connectDestroyed => exact follows_same (connectDestroyed_close w)
    | writeCompleteCallback => exact follows_same rfl
    | highWaterMarkCallback n => exact follows_same rfl
    | sendInLoop message =>
        apply follows_check (by decide)
        exact perform_follows fun conn es hok => (TcpConnection.sendInLoop_writes hok).state
    | shutdownInLoop =>
        apply follows_check (by decide)
        apply perform_follows
        intro conn es hok
        cases hok
        rfl
    | startReadInLoop =>
        apply follows_check (by decide)
        exact startReadInLoop_follows w
    | stopReadInLoop =>
        apply follows_check (by decide)
        exact stopReadInLoop_follows w

theorem handle_follows (w : World T) (h : Channel.Handler) (n : ReadResult) (r : WriteResult) :
    w.Follows (w.handle h n r) := by
  cases h with
  | close => exact handleClose_follows w
  | error => exact follows_same rfl
  | read =>
      cases n with
      | data => exact follows_same rfl
      | eof => exact handleClose_follows w
      | error => exact follows_same rfl
  | write => exact perform_follows fun conn es hok => (TcpConnection.handleWrite_writes hok).state

theorem close_stack {stack : List Frame}
    (h : stack.count .closeCallback = w.stack.count .closeCallback) :
    ({ w with stack := stack } : World T).close = w.close := by
  simp only [close, removals, h]

/-- A frame that is not a removal is left. -/
theorem close_pop {f : Frame} {stack : List Frame} (hf : f ≠ .closeCallback)
    (hs : w.stack = f :: stack) : ({ w with stack := stack } : World T).close = w.close := by
  apply close_stack
  rw [hs, List.count_cons_of_ne hf]

/-- `closeCallback_` carries the removal out, or hands it to the server's loop. -/
theorem closeCallback_follows {stack : List Frame} (hs : w.stack = .closeCallback :: stack) :
    w.Follows ({ w with stack := stack } : World T).closeCallback := by
  have hremovals : w.removals = stack.count .closeCallback + w.baseQueue + 1 := by
    unfold removals
    rw [hs, List.count_cons_self, Nat.add_right_comm]
  unfold closeCallback
  split
  · exact removeConnectionInLoop_follows rfl hremovals
  · apply follows_check (by decide)
    apply follows_same
    simp only [close, hremovals]
    rfl

end World

open World

/-- The calls with a `setState(kDisconnecting)` behind their test. -/
def Call.sets : Call → Bool
  | .send _ => false
  | _ => true

/-- The action is not a `setState(kDisconnecting)` of another thread on a connection that has
been closed since that thread's test. -/
def KeepsDisconnected (w : World T) (a : Action T) : Prop :=
  ∀ thread c, a = .set thread → w.foreign thread = .tested c → c.sets = true →
    w.conn.state ≠ .kDisconnected

variable [DecidableEq T]

theorem step_follows {a : Action T} {r : Except Assertion (World T)}
    (hk : KeepsDisconnected w a) (h : step w a = some r) : w.Follows r := by
  cases moves_of_step h with
  | call => exact call_follows w _ _
  | startRead => exact startReadInLoop_follows w
  | stopRead => exact stopReadInLoop_follows w
  | timerDead => exact follows_same rfl
  | timer => exact (call_follows { w with timers := w.timers - 1 } _ _).congr rfl
  | destroyServer => exact destroyServer_follows w
  | updateOther =>
      apply (ends_nested _ fun _ he => by cases he).bind
      rintro r -
      exact follows_same rfl
  | removeOther => exact follows_same rfl
  | userReturns hs => exact follows_same (close_pop (by decide) hs)
  | callbackReturns hs => exact follows_same (close_pop (by decide) hs)
  | establish hs => exact (connectEstablished_follows _).congr (close_pop (by decide) hs)
  | closeCallback hs => exact closeCallback_follows hs
  | disconnect hs => exact (disconnect_follows _).congr (close_pop (by decide) hs)
  | remove hs => exact (channelRemove_follows _).congr (close_pop (by decide) hs)
  | handle hs =>
      refine (handle_follows _ _ _ _).congr (close_stack ?_)
      rw [hs, List.count_cons_of_ne (by rintro ⟨⟩), List.count_cons_of_ne (by rintro ⟨⟩)]
  | handlersDone hs => exact follows_same (close_pop (by decide) hs)
  | poll => exact follows_same rfl
  | nextChannel =>
      unfold handleEvent
      split
      · apply follows_check (by decide)
        exact follows_same rfl
      · exact follows_same rfl
  | handled => exact follows_same rfl
  | nextJob => exact (runJob_follows _ _ _).congr rfl
  | jobsDone => exact follows_same rfl
  | queueUser => exact follows_same rfl
  | test => exact follows_same rfl
  | @set thread c hf =>
      -- behind the test the connection has not been closed
      have hopen := hk thread c rfl hf
      cases c with
      | send message => exact follows_same rfl
      | _ => exact follows_other (fun hd => absurd hd (hopen rfl)) rfl
  | post => exact follows_same rfl
  | baseRemove hl hb =>
      refine removeConnectionInLoop_follows rfl ?_
      show w.stack.count .closeCallback + w.baseQueue =
        w.stack.count .closeCallback + (w.baseQueue - 1) + 1
      omega
  | baseDestroyServer => exact destroyServer_follows w
  | destruct =>
      apply (ends_nested _ fun _ he => by cases he).bind
      rintro _ -
      apply follows_check (by decide)
      apply follows_check (by decide)
      apply follows_check (by decide)
      exact follows_same rfl

/-! ## Runs -/

/-- What a close promises behind a state: `kDisconnected` is final, `handleClose` runs once,
and the server finds the connection that it removes. -/
structure ClosesOnce (P : World T → Action T → Prop) (t : World T) : Prop where
  final : t.conn.state = .kDisconnected → ∀ as u, runs.Run P t as u →
    u.conn.state = .kDisconnected
  closes : t.closes ≤ 1
  erase : ∀ a, P t a → ¬ runs.Fails t a .erase

omit [DecidableEq T] in
theorem start_once (h : Start w) : w.close.Once where
  disconnected := by
    show 0 < w.closes → _
    rw [h.history.2.2.1]
    intro hpos
    cases hpos
  closes := by
    show w.closes ≤ 1
    rw [h.history.2.2.1]
    exact Nat.zero_le 1
  removals := by
    have hcount : w.stack.count .closeCallback = 0 := by
      rcases h.control with ⟨-, hs, -⟩ | ⟨-, hs, -⟩
      · rw [hs]
        rfl
      · rw [hs]
        rfl
    intro _
    show w.stack.count .closeCallback + w.baseQueue + (if w.connections = true then 0 else 1) =
      w.closes
    rw [hcount, h.baseQueue, h.server.1, h.history.2.2.1]
    rfl

theorem next_close {t u : World T} {a : Action T} (hk : KeepsDisconnected t a)
    (hn : runs.Next t a u) : Close.Step t.close u.close :=
  step_follows hk hn

theorem next_final {t u : World T} {a : Action T} (hk : KeepsDisconnected t a)
    (hn : runs.Next t a u) (hd : t.conn.state = .kDisconnected) :
    u.conn.state = .kDisconnected :=
  of_decide_eq_true ((next_close hk hn).disconnected (decide_eq_true hd))

/-- A run closes its connection once and for all as long as no other thread's
`setState(kDisconnecting)` is executed on a connection that has been closed since that thread's
test of `state_`; and each step that is such a `setState` leaves `kDisconnected`. -/
theorem disconnected_final (t : World T) (h : runs.Reachable KeepsDisconnected t) :
    ClosesOnce KeepsDisconnected t ∧ ∀ a u, runs.Next t a u →
      ((t.conn.state = .kDisconnected → u.conn.state = .kDisconnected) ↔
        KeepsDisconnected t a) := by
  have honce : t.close.Once := by
    apply h.invariant (fun _ h₀ => start_once h₀)
    intro s a u hs hk hn
    exact hs.step (next_close hk hn)
  refine ⟨⟨?_, honce.closes, ?_⟩, ?_⟩
  · intro hd as u hrun
    apply hrun.invariant _ hd
    intro s a v hs hk hn
    exact next_final hk hn hs
  · intro a hk hf
    have hmissing : t.close.Missing := step_follows hk hf rfl
    exact honce.not_missing hmissing
  · intro a u hn
    constructor
    · rintro hfinal thread c rfl hf hc hd
      have hu := hfinal hd
      cases next_moves hn with
      | set hf' =>
          rw [hf] at hf'
          cases hf'
          cases c <;> cases hc <;> cases hu
    · intro hk
      exact next_final hk hn

/-- Another thread tests `state_` in `forceClose()`, and the peer closes the connection. -/
def closedAfterTest : List (Action Unit) :=
  [.establish, .returns, .test () .forceClose, .returns, .handled, .jobsDone,
    .poll [2] { pollHup := true }, .nextChannel, .handle .error (.accepted 0)]

/-- While the thread has not gone on, the close is final. -/
theorem disconnected_final_sample : ∃ t : World Unit, runs.Reachable KeepsDisconnected t ∧
    t.conn.state = .kDisconnected ∧ ClosesOnce KeepsDisconnected t := by
  have hrun := System.run_of_exec
    (rfl : runs.exec (accepted false) closedAfterTest = some (.ok _))
  have hkeeps : ∀ a ∈ closedAfterTest, ∀ u : World Unit, KeepsDisconnected u a := by
    rintro a ha u thread c rfl
    simp [closedAfterTest] at ha
  have hreach := System.Reachable.run (System.Reachable.of_init (accepted_start false))
    (hrun.of_actions hkeeps)
  exact ⟨_, hreach, rfl, (disconnected_final _ hreach).1⟩

/-- The thread goes on, and its functor closes the connection once more. -/
def closedAgain : List (Action Unit) :=
  [.set (), .post (), .returns, .closeCallback, .handle .error (.accepted 0), .handled,
    .nextJob (.accepted 0), .returns]

/-- The body of `handleClose` runs twice, and the second removal does not find the
connection. -/
theorem closed_twice : (∃ t : World Unit, runs.Reachable System.always t ∧ t.closes = 2 ∧
      runs.Fails t .closeCallback .erase) ∧
    ¬ ∀ t : World Unit, runs.Reachable System.always t → ClosesOnce System.always t := by
  have hrun := System.run_of_exec
    (rfl : runs.exec (accepted false) (closedAfterTest ++ closedAgain) = some (.ok _))
  have hreach := System.Reachable.run (System.Reachable.of_init (accepted_start false)) hrun
  refine ⟨⟨_, hreach, rfl, rfl⟩, ?_⟩
  intro hall
  exact (hall _ hreach).erase .closeCallback trivial rfl

end Zing.Net.Connection
