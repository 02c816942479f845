import Zing.Net.TcpStream

set_option autoImplicit false

/-! # Graceful shutdown

A connection that is up, with the calls of `send` and `shutdown` that its loop thread and other
threads make. A call of another thread is cut behind its test of `state_`, and that of
`shutdown` behind its `setState` too; its functor goes through the queue of the loop. The
kernel accepts any part of a write, and neither the peer nor the user closes the connection.

`shutdownWrite()` may come too early: a functor of the queue, or a thread that has tested
`state_`, can be behind it. `graceful_shutdown` says that the shutdown is graceful in every
run in which it is not.
-/

namespace Zing.Net.GracefulShutdown

open Zing.Lib
open TcpConnection (Effect Assertion WriteCall writeCalls acceptedBytes Extends Ready)

/-! ## State -/

/-- A message that a call of `send` has taken on; its number tells it from equal ones. -/
structure Message where
  id : Nat
  data : List Byte
  deriving DecidableEq, Repr

/-- The functors in the queue of the loop; `user` stands for all that call code of the
user. -/
inductive Job
  | sendInLoop (message : Message)
  | shutdownInLoop
  | user
  deriving DecidableEq, Repr

/-- Where another thread is: in `send` behind its test of `state_`; in `shutdown` behind its
test, or behind its `setState`. -/
inductive Foreign
  | idle
  | sending (message : Message)
  | tested
  | set
  deriving DecidableEq, Repr

/-- `calling` are the functors of the batch that are left, while the loop calls functors. The
rest is a record: `effects` of the connection's functions, in their order; the messages passed
to `sendInLoop`; whether a call of `shutdown` has passed its test; and the messages whose
`send` had returned by then. -/
structure World (T : Type) where
  conn : TcpConnection
  calling : Option (List Job)
  pending : List Job
  foreign : T → Foreign
  next : Nat
  effects : List Effect
  sends : List Message
  called : Bool
  returned : List Message

variable {T : Type}

namespace World

/-- The functors that are queued, in the order in which they will be called. -/
def jobs (w : World T) : List Job := w.calling.getD [] ++ w.pending

/-- The callbacks that the connection's functions queue. -/
def callbacks (es : List Effect) : List Job :=
  es.filterMap fun e =>
    match e with
    | .queueInLoop _ => some .user
    | _ => none

/-- Run a function of the connection. -/
def perform (w : World T) (r : Except Assertion (TcpConnection × List Effect)) :
    Except Assertion (World T) := do
  let r ← r
  .ok { w with
    conn := r.1
    effects := w.effects ++ r.2
    pending := w.pending ++ callbacks r.2 }

/-- A call of `send` returns. -/
def sent (w : World T) (m : Message) : World T :=
  -- only those count whose `send` returns in front of the first `shutdown`
  { w with returned := if w.called = true then w.returned else w.returned ++ [m] }

/-- `sendInLoop(message)` -/
def sendInLoop (w : World T) (m : Message) (r : WriteResult) : Except Assertion (World T) :=
  -- the order in which the messages are to appear on the stream
  { w with sends := w.sends ++ [m] }.perform (w.conn.sendInLoop m.data r)

/-- `send(message)` on the loop thread -/
def send (w : World T) (data : List Byte) (r : WriteResult) : Except Assertion (World T) :=
  if w.conn.state = .kConnected then do
    let m : Message := ⟨w.next, data⟩
    let w ← { w with next := w.next + 1 }.sendInLoop m r
    .ok (w.sent m)
  else .ok w

/-- `shutdown()` on the loop thread -/
def shutdown (w : World T) : Except Assertion (World T) :=
  if w.conn.shutdownTest = true then
    let conn := w.conn.setState .kDisconnecting
    { w with conn := conn, called := true }.perform (.ok (conn, conn.shutdownInLoop))
  else .ok w

/-- The next functor of the batch is called. -/
def runJob (w : World T) (j : Job) (r : WriteResult) : Except Assertion (World T) :=
  match j with
  | .sendInLoop m => w.sendInLoop m r
  | .shutdownInLoop => w.perform (.ok (w.conn, w.conn.shutdownInLoop))
  | .user => .ok w

end World

/-- The kernel accepts a part of the `len` bytes that it is offered, or none for now. -/
def accepts (r : WriteResult) (len : Nat) : Bool :=
  match r with
  | .accepted n => n ≤ len
  -- any other error may be the peer's reset
  | .failed errno => errno = EWOULDBLOCK

/-- What the kernel may answer to the write of a functor. -/
def Job.mayWrite (j : Job) (r : WriteResult) : Bool :=
  match j with
  | .sendInLoop m => accepts r m.data.length
  | _ => true

/-! ## Steps -/

/-- The calls of the loop thread are made by code of the user, in a handler, in a functor or in
a callback. -/
inductive Action (T : Type)
  | send (data : List Byte) (r : WriteResult)
  | shutdown
  | handleWrite (r : WriteResult)
  | swap
  | nextJob (r : WriteResult)
  | jobsDone
  | queueUser
  | testSend (thread : T) (data : List Byte)
  | postSend (thread : T)
  | testShutdown (thread : T)
  | setShutdown (thread : T)
  | postShutdown (thread : T)

variable [DecidableEq T]

def World.goTo (w : World T) (thread : T) (f : Foreign) : World T :=
  { w with foreign := Function.update w.foreign thread f }

/-- Another thread posts its functor, and is done. -/
def World.post (w : World T) (thread : T) (j : Job) : World T :=
  { w with
    foreign := Function.update w.foreign thread .idle
    pending := w.pending ++ [j] }

def step (w : World T) : Action T → Option (Except Assertion (World T))
  | .send data r => if accepts r data.length = true then some (w.send data r) else none
  | .shutdown => some w.shutdown
  | .handleWrite r =>
      -- the events of the channel are handled in front of the functors
      if w.calling = none ∧ accepts r w.conn.outputBuffer.readableBytes = true then
        some (w.perform (w.conn.handleWrite r))
      else none
  | .swap =>
      if w.calling = none then some (.ok { w with calling := some w.pending, pending := [] })
      else none
  | .nextJob r =>
      match w.calling with
      | some (j :: rest) =>
          if j.mayWrite r = true then some ({ w with calling := some rest }.runJob j r) else none
      | _ => none
  | .jobsDone => if w.calling = some [] then some (.ok { w with calling := none }) else none
  | .queueUser => some (.ok { w with pending := w.pending ++ [.user] })
  | .testSend thread data =>
      if w.foreign thread = .idle ∧ w.conn.state = .kConnected then
        some (.ok ({ w with next := w.next + 1 }.goTo thread (.sending ⟨w.next, data⟩)))
      else none
  | .postSend thread =>
      match w.foreign thread with
      | .sending m => some (.ok ((w.post thread (.sendInLoop m)).sent m))
      | _ => none
  | .testShutdown thread =>
      -- `state_ == kConnected`, but nothing holds it there: another call may set it too
      if w.foreign thread = .idle ∧ w.conn.shutdownTest = true then
        some (.ok ({ w with called := true }.goTo thread .tested))
      else none
  | .setShutdown thread =>
      if w.foreign thread = .tested then
        some (.ok ({ w with conn := w.conn.setState .kDisconnecting }.goTo thread .set))
      else none
  | .postShutdown thread =>
      if w.foreign thread = .set then some (.ok (w.post thread .shutdownInLoop)) else none

/-- `connectEstablished` has brought the connection up, and nobody has called anything. -/
structure Start (w : World T) : Prop where
  conn : ∃ sockfd writeComplete highWater mark effects,
    (TcpConnection.configured sockfd writeComplete highWater mark).connectEstablished
      = .ok (w.conn, effects)
  jobs : ∀ j ∈ w.jobs, j = .user
  foreign : ∀ thread, w.foreign thread = .idle
  record : w.effects = [] ∧ w.sends = [] ∧ w.called = false ∧ w.returned = []

/-- The runs of a connection that is shut down. -/
def runs : System (World T) (Action T) Assertion where
  init := Start
  step := step

/-! ## What is promised, and when -/

/-- The bytes of the messages, one after the other. -/
def bytes (ms : List Message) : List Byte := ms.flatMap Message.data

/-- The kernel has accepted the message, and all that was to be sent before it. -/
def Handed (sends : List Message) (calls : List WriteCall) (m : Message) : Prop :=
  ∃ before after, sends = before ++ m :: after ∧ bytes (before ++ [m]) <+: acceptedBytes calls

/-- `shutdownWrite()` is issued once, behind each message whose `send` returned before the
call of `shutdown`, and in front of no write. -/
structure Graceful (w : World T) : Prop where
  once : w.effects.count .shutdownWrite ≤ 1
  handed : ∀ pre post, w.effects = pre ++ .shutdownWrite :: post →
    ∀ m ∈ w.returned, Handed w.sends (writeCalls pre) m
  last : ∀ pre post, w.effects = pre ++ .shutdownWrite :: post → writeCalls post = []

/-- The answer `r` of the kernel empties the output buffer. -/
def drains (conn : TcpConnection) (r : WriteResult) : Bool :=
  conn.channel.isWriting &&
    match r with
    | .accepted n => decide (0 < n) && decide (n = conn.outputBuffer.readableBytes)
    | .failed _ => false

/-- The step issues `shutdownWrite()`. -/
def World.shutsDown (w : World T) : Action T → Bool
  | .shutdown => w.conn.shutdownTest && !w.conn.channel.isWriting
  | .handleWrite r => drains w.conn r && decide (w.conn.state = .kDisconnecting)
  | .nextJob _ =>
      match w.calling with
      -- while the channel is writing `shutdownInLoop` does nothing; `handleWrite` will
      | some (.shutdownInLoop :: _) => !w.conn.channel.isWriting
      | _ => false
  | _ => false

/-- The functors that are left behind the step. -/
def World.left (w : World T) : Action T → List Job
  -- the functor that is called is not behind itself
  | .nextJob _ => w.jobs.tail
  | _ => w.jobs

/-- `shutdownWrite()` is not issued while a functor `sendInLoop` or `shutdownInLoop` is queued,
nor while another thread is behind the test of `state_` of a call. -/
structure Waits (w : World T) (a : Action T) : Prop where
  jobs : w.shutsDown a = true → ∀ j ∈ w.left a, j = .user
  foreign : w.shutsDown a = true → ∀ thread, w.foreign thread = .idle

/-! ## What the connection's functions issue -/

section functions

variable {conn conn' : TcpConnection} {es : List Effect} {data : List Byte} {r : WriteResult}

theorem legal_of_accepts {len : Nat} (h : accepts r len = true) : r.Legal len := by
  cases r with
  | accepted n => exact of_decide_eq_true h
  | failed errno => trivial

/-- `sendInLoop` gives a message up only on an error. -/
theorem faultError_of_accepts {len : Nat} (h : accepts r len = true) :
    (conn.directWrite data r).faultError = false := by
  unfold TcpConnection.directWrite
  split
  · cases r with
    | accepted n => rfl
    | failed errno =>
        have herrno : errno = EWOULDBLOCK := of_decide_eq_true h
        subst herrno
        rfl
  · rfl

theorem shutdownWrite_not_mem_writeComplete :
    .shutdownWrite ∉ conn.writeCompleteEffects := by
  unfold TcpConnection.writeCompleteEffects
  split
  · simp
  · simp

theorem shutdownWrite_not_mem_directWrite :
    .shutdownWrite ∉ (conn.directWrite data r).effects := by
  unfold TcpConnection.directWrite
  split
  · cases r with
    | accepted n =>
        dsimp only
        split
        · simp [shutdownWrite_not_mem_writeComplete]
        · simp
    | failed errno => simp
  · simp

theorem shutdownWrite_not_mem_sendInLoop (h : conn.sendInLoop data r = .ok (conn', es)) :
    .shutdownWrite ∉ es := by
  have hhigh : ∀ n, Effect.shutdownWrite ∉ conn.highWaterEffects n := by
    intro n
    unfold TcpConnection.highWaterEffects
    dsimp only
    split
    · simp
    · simp
  unfold TcpConnection.sendInLoop at h
  split at h
  · cases h
    exact List.not_mem_nil
  · obtain ⟨_, -, h⟩ := bind_eq_ok.mp h
    split at h
    · obtain ⟨out, -, h⟩ := bind_eq_ok.mp h
      dsimp only at h
      split at h
      · cases h
        simp [shutdownWrite_not_mem_directWrite, hhigh]
      · cases h
        simp [shutdownWrite_not_mem_directWrite, hhigh]
    · cases h
      exact shutdownWrite_not_mem_directWrite

theorem sendInLoop_extends (h : conn.Ready) (hup : conn.state ≠ .kDisconnected)
    (ha : accepts r data.length = true) : ∃ conn' es, conn.sendInLoop data r = .ok (conn', es) ∧
      conn.Extends data conn' es ∧ .shutdownWrite ∉ es := by
  have hd := TcpConnection.directWrite_splits h data (legal_of_accepts ha)
  obtain ⟨conn', es, hok, hext, -⟩ :=
    TcpConnection.bufferRemaining_spec h hd (faultError_of_accepts ha)
  have hsend : conn.sendInLoop data r = .ok (conn', es) := by
    rw [TcpConnection.sendInLoop, if_neg hup]
    exact hok
  exact ⟨conn', es, hsend, hext, shutdownWrite_not_mem_sendInLoop hsend⟩

/-- A connection that does not write ignores `POLLOUT`. -/
theorem handleWrite_idle (h : conn.channel.isWriting = false) :
    conn.handleWrite r = .ok (conn, []) := by
  rw [TcpConnection.handleWrite, h]
  rfl

/-- What `handleWrite` does behind the write that empties the output buffer. -/
theorem handleWrite_drained (h : conn.Ready) (hd : drains conn r = true) :
    ∃ conn' es, conn.handleWrite r = .ok (conn', es) ∧ conn'.channel.isWriting = false ∧
      ∃ pre, es = pre ++ (if conn.state = .kDisconnecting then [.shutdownWrite] else []) ∧
        .shutdownWrite ∉ pre := by
  obtain ⟨hw, hr⟩ := Bool.and_eq_true_iff.mp hd
  cases r with
  | failed errno => cases hr
  | accepted n =>
      obtain ⟨hpos, hn⟩ := Bool.and_eq_true_iff.mp hr
      have hpos : 0 < n := of_decide_eq_true hpos
      have hn : n = conn.outputBuffer.readableBytes := of_decide_eq_true hn
      obtain ⟨out, hout, hwf, hread, -⟩ := Buffer.retrieve_spec h.wf (Nat.le_of_eq hn)
      have hempty : out.readableBytes = 0 := by
        rw [← Buffer.length_readable hwf, hread, List.length_drop,
          Buffer.length_readable h.wf, hn, Nat.sub_self]
      have hidle : conn.channel.disableWriting.isWriting = false :=
        Channel.isWriting_disableWriting _
      refine ⟨{ conn with outputBuffer := out, channel := conn.channel.disableWriting },
        .write conn.outputBuffer.readable (.accepted n) :: .updateChannel ::
          (conn.writeCompleteEffects ++
            if conn.state = .kDisconnecting then [.shutdownWrite] else []), ?_, hidle,
        .write conn.outputBuffer.readable (.accepted n) :: .updateChannel ::
          conn.writeCompleteEffects, rfl, ?_⟩
      · rw [TcpConnection.handleWrite, if_pos hw]
        simp only [if_pos hpos, hout, nested_ok, ok_bind, if_pos hempty,
          TcpConnection.outputDrained, TcpConnection.shutdownInLoop, hidle]
        rfl
      · simp [shutdownWrite_not_mem_writeComplete]

/-- `handleWrite` issues nothing but a write while bytes are left. -/
theorem handleWrite_partial (h : conn.Ready) (hr : r.Legal conn.outputBuffer.readableBytes)
    (hd : drains conn r = false) (hok : conn.handleWrite r = .ok (conn', es)) :
    .shutdownWrite ∉ es := by
  by_cases hw : conn.channel.isWriting = true
  · rw [TcpConnection.handleWrite, if_pos hw] at hok
    simp only [drains, hw, Bool.true_and] at hd
    cases r with
    | failed errno =>
        cases hok
        simp
    | accepted n =>
        dsimp only at hok
        split at hok
        case isTrue hpos =>
          obtain ⟨out, hout, hok⟩ := bind_eq_ok.mp hok
          obtain ⟨out', hout', hwf, hread, -⟩ := Buffer.retrieve_spec h.wf hr
          rw [hout'] at hout
          cases hout
          -- bytes are left, so the branch behind the last byte is not taken
          have hlen := congrArg List.length hread
          rw [Buffer.length_readable hwf, List.length_drop, Buffer.length_readable h.wf] at hlen
          have hne : n ≠ conn.outputBuffer.readableBytes := by
            intro hn
            simp [hn] at hd
            omega
          have hle : n ≤ conn.outputBuffer.readableBytes := hr
          rw [if_neg (by omega)] at hok
          cases hok
          simp
        case isFalse =>
          cases hok
          simp
  · rw [handleWrite_idle (Bool.eq_false_iff.mpr hw)] at hok
    cases hok
    exact List.not_mem_nil

end functions

/-! ## The invariant -/

/-- Behind `shutdownWrite()` nothing is left that could write or shut down. -/
structure Finished (w : World T) : Prop where
  jobs : ∀ j ∈ w.jobs, j = .user
  foreign : ∀ thread, w.foreign thread = .idle
  state : w.conn.state = .kDisconnecting
  silent : w.conn.channel.isWriting = false
  graceful : Graceful w

/-- The connection is up, and the bytes that were written and those still in the buffer are those
sent. A message that a call has returned for was sent or is queued, `shutdownInLoop` is queued
only while the connection is closing, and behind `shutdownWrite()` all is over. -/
structure Inv (w : World T) : Prop where
  ready : w.conn.Ready
  isUp : w.conn.state ≠ .kDisconnected
  stream : acceptedBytes (writeCalls w.effects) ++ w.conn.outputBuffer.readable = bytes w.sends
  returned : ∀ m ∈ w.returned, m ∈ w.sends ∨ .sendInLoop m ∈ w.jobs
  asked : (.shutdownInLoop ∈ w.jobs ∨ ∃ thread, w.foreign thread = .set) →
    w.conn.state = .kDisconnecting
  finished : .shutdownWrite ∈ w.effects → Finished w

variable {w w' : World T}

omit [DecidableEq T] in
theorem bytes_append (as bs : List Message) : bytes (as ++ bs) = bytes as ++ bytes bs :=
  List.flatMap_append

omit [DecidableEq T] in
theorem graceful_of_not_mem (h : .shutdownWrite ∉ w.effects) : Graceful w where
  once := by
    rw [List.count_eq_zero_of_not_mem h]
    exact Nat.zero_le 1
  handed := by
    intro pre post heq
    rw [heq] at h
    exact absurd (List.mem_append_right pre List.mem_cons_self) h
  last := by
    intro pre post heq
    rw [heq] at h
    exact absurd (List.mem_append_right pre List.mem_cons_self) h

omit [DecidableEq T] in
theorem Inv.graceful (h : Inv w) : Graceful w := by
  by_cases hs : .shutdownWrite ∈ w.effects
  · exact (h.finished hs).graceful
  · exact graceful_of_not_mem hs

omit [DecidableEq T] in
/-- The bytes of a step go on the stream. -/
theorem Inv.extend (h : Inv w) {conn' : TcpConnection} {es : List Effect} {ms : List Message}
    (hext : w.conn.Extends (bytes ms) conn' es) :
    acceptedBytes (writeCalls (w.effects ++ es)) ++ conn'.outputBuffer.readable =
      bytes (w.sends ++ ms) := by
  calc acceptedBytes (writeCalls (w.effects ++ es)) ++ conn'.outputBuffer.readable
      = acceptedBytes (writeCalls w.effects)
          ++ (acceptedBytes (writeCalls es) ++ conn'.outputBuffer.readable) := by
        rw [TcpConnection.writeCalls_append, TcpConnection.acceptedBytes_append,
          List.append_assoc]
    _ = acceptedBytes (writeCalls w.effects) ++ (w.conn.outputBuffer.readable ++ bytes ms) := by
        rw [hext.stream]
    _ = bytes (w.sends ++ ms) := by rw [← List.append_assoc, h.stream, bytes_append]

/-- The end of a list that a value closes. -/
theorem append_singleton_inj {l pre post : List Effect} {e : Effect} (hl : e ∉ l)
    (h : l ++ [e] = pre ++ e :: post) : pre = l ∧ post = [] := by
  rcases List.eq_nil_or_concat post with rfl | ⟨init, last, rfl⟩
  · exact ⟨(List.append_inj' h rfl).1.symm, rfl⟩
  · -- else the value would be in `l`
    rw [List.concat_eq_append, ← List.cons_append, ← List.append_assoc] at h
    obtain ⟨heq, -⟩ := List.append_inj' h rfl
    rw [heq] at hl
    exact absurd (List.mem_append_right pre List.mem_cons_self) hl

omit [DecidableEq T] in
/-- A message of a stream that the kernel has accepted as a whole. -/
theorem handed_of_mem {sends : List Message} {calls : List WriteCall} {m : Message}
    (hm : m ∈ sends) (hall : acceptedBytes calls = bytes sends) : Handed sends calls m := by
  obtain ⟨before, after, rfl⟩ := List.append_of_mem hm
  refine ⟨before, after, rfl, bytes after, ?_⟩
  rw [hall, ← bytes_append, List.append_assoc]
  rfl

omit [DecidableEq T] in
/-- `shutdownWrite()` is issued while nothing else is left. -/
theorem Inv.shut (h : Inv w) {es : List Effect} (hw : .shutdownWrite ∉ w.effects)
    (hes : .shutdownWrite ∉ es) (hext : w.conn.Extends [] w'.conn es)
    (heffects : w'.effects = w.effects ++ es ++ [.shutdownWrite]) (hsends : w'.sends = w.sends)
    (hreturned : w'.returned = w.returned) (hleft : ∀ m, .sendInLoop m ∈ w.jobs → False)
    (hjobs : ∀ j ∈ w'.jobs, j = .user) (hforeign : ∀ thread, w'.foreign thread = .idle)
    (hstate : w'.conn.state = .kDisconnecting) (hsilent : w'.conn.channel.isWriting = false) :
    Inv w' := by
  have hext' : w.conn.Extends (bytes []) w'.conn es := hext
  have hstream := h.extend hext'
  rw [List.append_nil] at hstream
  -- the channel is not writing, so the output buffer is empty: all that was sent is accepted
  have hempty : w'.conn.outputBuffer.readable = [] := by
    by_contra hne
    rw [hext.ready.writing_iff.mpr hne] at hsilent
    cases hsilent
  have hlast : writeCalls w'.effects = writeCalls (w.effects ++ es) := by
    rw [heffects, TcpConnection.writeCalls_append (w.effects ++ es)]
    exact List.append_nil _
  have hnot : .shutdownWrite ∉ w.effects ++ es := by
    rw [List.mem_append, not_or]
    exact ⟨hw, hes⟩
  have hmem : ∀ m ∈ w'.returned, m ∈ w'.sends := by
    intro m hm
    rw [hreturned] at hm
    rw [hsends]
    exact (h.returned m hm).resolve_right (hleft m)
  have hgraceful : Graceful w' := by
    rw [hempty, List.append_nil] at hstream
    constructor
    · rw [heffects, List.count_append, List.count_eq_zero_of_not_mem hnot]
      exact Nat.le_refl 1
    · intro pre post heq m hm
      rw [heffects] at heq
      obtain ⟨rfl, -⟩ := append_singleton_inj hnot heq
      apply handed_of_mem (hmem m hm)
      rw [hstream, hsends]
    · intro pre post heq
      rw [heffects] at heq
      obtain ⟨-, rfl⟩ := append_singleton_inj hnot heq
      rfl
  refine ⟨hext.ready, ?_, ?_, fun m hm => Or.inl (hmem m hm), fun _ => hstate,
    fun _ => ⟨hjobs, hforeign, hstate, hsilent, hgraceful⟩⟩
  · rw [hstate]
    rintro ⟨⟩
  · rw [hlast, hsends]
    exact hstream

omit [DecidableEq T] in
/-- A step that issues nothing and takes no message on. -/
theorem Inv.same (h : Inv w) (hconn : w'.conn = w.conn) (heffects : w'.effects = w.effects)
    (hsends : w'.sends = w.sends) (hreturned : w'.returned = w.returned)
    (hjobs : ∀ j ∈ w'.jobs, j ∈ w.jobs ∨ j = .user)
    (hkept : ∀ m, .sendInLoop m ∈ w.jobs → .sendInLoop m ∈ w'.jobs)
    (hforeign : ∀ thread, w'.foreign thread = w.foreign thread ∨
      w.conn.state = .kConnected ∧ w'.foreign thread ≠ .set) : Inv w' where
  ready := by
    rw [hconn]
    exact h.ready
  isUp := by
    rw [hconn]
    exact h.isUp
  stream := by
    rw [heffects, hconn, hsends]
    exact h.stream
  returned := by
    intro m hm
    rw [hreturned] at hm
    rw [hsends]
    exact (h.returned m hm).imp_right (hkept m)
  asked := by
    rw [hconn]
    rintro (hmem | ⟨thread, hset⟩)
    · exact h.asked (Or.inl ((hjobs _ hmem).resolve_right (by rintro ⟨⟩)))
    · rcases hforeign thread with hf | ⟨-, hf⟩
      · exact h.asked (Or.inr ⟨thread, hf.symm.trans hset⟩)
      · exact absurd hset hf
  finished := by
    intro hmem
    rw [heffects] at hmem
    have hf := h.finished hmem
    refine ⟨?_, ?_, ?_, ?_, ?_⟩
    · intro j hj
      rcases hjobs j hj with hj | hj
      · exact hf.jobs j hj
      · exact hj
    · intro thread
      rcases hforeign thread with heq | ⟨hc, -⟩
      · exact heq.trans (hf.foreign thread)
      · -- nobody begins a call on a connection that is shut down
        rw [hf.state] at hc
        cases hc
    · rw [hconn]
      exact hf.state
    · rw [hconn]
      exact hf.silent
    · constructor
      · rw [heffects]
        exact hf.graceful.once
      · rw [heffects, hreturned, hsends]
        exact hf.graceful.handed
      · rw [heffects]
        exact hf.graceful.last

omit [DecidableEq T] in
/-- A step that only moves the functors on. -/
theorem Inv.same_jobs (h : Inv w) (hconn : w'.conn = w.conn) (heffects : w'.effects = w.effects)
    (hsends : w'.sends = w.sends) (hreturned : w'.returned = w.returned)
    (hjobs : w'.jobs = w.jobs) (hforeign : w'.foreign = w.foreign) : Inv w' := by
  apply h.same hconn heffects hsends hreturned
  · rw [hjobs]
    exact fun _ => Or.inl
  · rw [hjobs]
    exact fun _ hm => hm
  · rw [hforeign]
    exact fun _ => Or.inl rfl

omit [DecidableEq T] in
/-- A step that takes messages on, or writes, in front of `shutdownWrite()`. -/
theorem Inv.wrote (h : Inv w) {es : List Effect} {ms : List Message}
    (hw : .shutdownWrite ∉ w.effects) (hes : .shutdownWrite ∉ es)
    (hext : w.conn.Extends (bytes ms) w'.conn es) (heffects : w'.effects = w.effects ++ es)
    (hsends : w'.sends = w.sends ++ ms)
    (hreturned : ∀ m ∈ w'.returned, m ∈ w'.sends ∨ .sendInLoop m ∈ w'.jobs)
    (hjobs : .shutdownInLoop ∈ w'.jobs → .shutdownInLoop ∈ w.jobs)
    (hforeign : ∀ thread, w'.foreign thread = .set → w.foreign thread = .set) : Inv w' where
  ready := hext.ready
  isUp := by
    rw [hext.state_eq]
    exact h.isUp
  stream := by
    rw [heffects, hsends]
    exact h.extend hext
  returned := hreturned
  asked := by
    rw [hext.state_eq]
    rintro (hmem | ⟨thread, hset⟩)
    · exact h.asked (Or.inl (hjobs hmem))
    · exact h.asked (Or.inr ⟨thread, hforeign thread hset⟩)
  finished := by
    intro hmem
    rw [heffects, List.mem_append] at hmem
    rcases hmem with hmem | hmem
    · exact absurd hmem hw
    · exact absurd hmem hes

omit [DecidableEq T] in
/-- `setState(kDisconnecting)`, which does no harm behind `shutdownWrite()`. -/
theorem Inv.setState (h : Inv w) (called : Bool) :
    Inv { w with conn := w.conn.setState .kDisconnecting, called := called } where
  ready := ⟨h.ready.wf, h.ready.writing_iff⟩
  isUp := by rintro ⟨⟩
  stream := h.stream
  returned := h.returned
  asked := fun _ => rfl
  finished := by
    intro hmem
    have hf := h.finished hmem
    exact ⟨hf.jobs, hf.foreign, rfl, hf.silent, ⟨hf.graceful.once, hf.graceful.handed,
      hf.graceful.last⟩⟩

/-! ## The steps -/

omit [DecidableEq T] in
theorem callbacks_user {es : List Effect} {j : Job} (h : j ∈ World.callbacks es) :
    j = .user := by
  obtain ⟨e, -, he⟩ := List.mem_filterMap.mp h
  split at he
  · exact (Option.some.inj he).symm
  · cases he

omit [DecidableEq T] in
theorem jobs_append (w : World T) (js : List Job) :
    ({ w with pending := w.pending ++ js } : World T).jobs = w.jobs ++ js :=
  (List.append_assoc ..).symm

omit [DecidableEq T] in
theorem mem_jobs_user {js : List Job} {j : Job} (hjs : ∀ i ∈ js, i = .user)
    (h : j ∈ w.jobs ++ js) : j ∈ w.jobs ∨ j = .user :=
  (List.mem_append.mp h).imp_right (hjs j)

/-- How a step may end. -/
def Keeps (r : Except Assertion (World T)) : Prop := Ends Inv (fun _ => False) r

omit [DecidableEq T] in
theorem perform_nothing (w : World T) : w.perform (.ok (w.conn, [])) = .ok w := by
  simp only [World.perform, ok_bind, World.callbacks, List.filterMap_nil, List.append_nil]

omit [DecidableEq T] in
theorem extends_refl {conn : TcpConnection} (h : conn.Ready) : conn.Extends [] conn [] where
  ready := h
  state_eq := rfl
  stream := (List.append_nil _).symm

omit [DecidableEq T] in
/-- `shutdownInLoop` shuts down at the last, or leaves it to the writing. -/
theorem Inv.shutdownInLoop (h : Inv w) (hw : .shutdownWrite ∉ w.effects)
    (hstate : w.conn.state = .kDisconnecting)
    (hlast : w.conn.channel.isWriting = false →
      (∀ j ∈ w.jobs, j = .user) ∧ ∀ thread, w.foreign thread = .idle) :
    Keeps (w.perform (.ok (w.conn, w.conn.shutdownInLoop))) := by
  unfold TcpConnection.shutdownInLoop
  by_cases hwriting : w.conn.channel.isWriting = true
  · rw [hwriting]
    show Keeps (w.perform (.ok (w.conn, [])))
    rw [perform_nothing]
    exact h
  · have hsilent : w.conn.channel.isWriting = false := Bool.eq_false_iff.mpr hwriting
    obtain ⟨hjobs, hforeign⟩ := hlast hsilent
    rw [hsilent]
    refine h.shut hw List.not_mem_nil (extends_refl h.ready) ?_ rfl rfl ?_ ?_ hforeign hstate
      hsilent
    · show w.effects ++ [.shutdownWrite] = w.effects ++ [] ++ [.shutdownWrite]
      rw [List.append_nil]
    · intro m hm
      cases hjobs _ hm
    · intro j hj
      have hj : j ∈ w.jobs ++ [] := jobs_append w [] ▸ hj
      rw [List.append_nil] at hj
      exact hjobs j hj

omit [DecidableEq T] in
/-- `sendInLoop` in front of `shutdownWrite()`, for a message that may have been the next one in
the queue. -/
theorem Inv.sendInLoop (h : Inv w) (hw : .shutdownWrite ∉ w.effects) {m : Message}
    {r : WriteResult} (ha : accepts r m.data.length = true) {c : Option (List Job)} {n : Nat}
    (hjobs : ∀ j ∈ ({ w with calling := c, next := n } : World T).jobs, j ∈ w.jobs)
    (hkept : ∀ k, .sendInLoop k ∈ w.jobs →
      k = m ∨ .sendInLoop k ∈ ({ w with calling := c, next := n } : World T).jobs) :
    Ends (fun w' => Inv w' ∧ .shutdownWrite ∉ w'.effects ∧ m ∈ w'.sends) (fun _ => False)
      (World.sendInLoop { w with calling := c, next := n } m r) := by
  obtain ⟨conn', es, hok, hext, hes⟩ := sendInLoop_extends h.ready h.isUp ha
  have hext' : w.conn.Extends (bytes [m]) conn' es := by
    have hbytes : bytes [m] = m.data := List.append_nil _
    rw [hbytes]
    exact hext
  have happend := jobs_append { w with
    conn := conn', sends := w.sends ++ [m], effects := w.effects ++ es, calling := c, next := n }
    (World.callbacks es)
  have hm : m ∈ w.sends ++ [m] := List.mem_append_right _ (List.mem_singleton_self m)
  unfold World.sendInLoop
  rw [hok]
  refine ⟨?_, ?_, hm⟩
  · refine h.wrote hw hes hext' rfl rfl ?_ ?_ fun _ hf => hf
    · intro k hk
      rcases h.returned k hk with hmem | hmem
      · exact Or.inl (List.mem_append_left _ hmem)
      · rcases hkept k hmem with rfl | hmem
        · exact Or.inl hm
        · right
          rw [happend]
          exact List.mem_append_left _ hmem
    · intro hmem
      rw [happend] at hmem
      exact hjobs _ ((mem_jobs_user (fun _ => callbacks_user) hmem).resolve_right (by rintro ⟨⟩))
  · show .shutdownWrite ∉ w.effects ++ es
    rw [List.mem_append, not_or]
    exact ⟨hw, hes⟩

omit [DecidableEq T] in
/-- The message of a call of `send` that returns has been sent, or is queued. -/
theorem Inv.sent (h : Inv w) (hw : .shutdownWrite ∉ w.effects) {m : Message}
    (hm : m ∈ w.sends ∨ .sendInLoop m ∈ w.jobs) : Inv (w.sent m) where
  ready := h.ready
  isUp := h.isUp
  stream := h.stream
  returned := by
    intro n hn
    unfold World.sent at hn
    dsimp only at hn
    split at hn
    · exact h.returned n hn
    · rcases List.mem_append.mp hn with hn | hn
      · exact h.returned n hn
      · rw [List.mem_singleton.mp hn]
        exact hm
  asked := h.asked
  finished := fun hmem => absurd hmem hw

omit [DecidableEq T] in
theorem Inv.not_finished (h : Inv w) (hc : w.conn.state = .kConnected) :
    .shutdownWrite ∉ w.effects := by
  intro hmem
  rw [(h.finished hmem).state] at hc
  cases hc

omit [DecidableEq T] in
theorem Inv.send (h : Inv w) {data : List Byte} {r : WriteResult}
    (ha : accepts r data.length = true) : Keeps (w.send data r) := by
  unfold World.send
  split
  case isTrue hc =>
    apply (h.sendInLoop (m := ⟨w.next, data⟩) (c := w.calling) (n := w.next + 1)
      (h.not_finished hc) ha (fun _ hj => hj) fun _ hk => Or.inr hk).bind
    rintro v ⟨hv, hw, hm⟩
    exact hv.sent hw (Or.inl hm)
  case isFalse => exact h

omit [DecidableEq T] in
/-- A function that takes no message on, in front of `shutdownWrite()`. -/
theorem Inv.performed (h : Inv w) (hw : .shutdownWrite ∉ w.effects) {conn' : TcpConnection}
    {es : List Effect} (hes : .shutdownWrite ∉ es) (hext : w.conn.Extends [] conn' es) :
    Keeps (w.perform (.ok (conn', es))) := by
  have hext' : w.conn.Extends (bytes []) conn' es := hext
  refine h.wrote hw hes hext' rfl (List.append_nil _).symm ?_ ?_ fun _ hf => hf
  · intro m hm
    refine (h.returned m hm).imp_right fun hmem => ?_
    rw [jobs_append { w with conn := conn', effects := w.effects ++ es }]
    exact List.mem_append_left _ hmem
  · intro hmem
    rw [jobs_append { w with conn := conn', effects := w.effects ++ es }] at hmem
    exact (mem_jobs_user (fun _ => callbacks_user) hmem).resolve_right (by rintro ⟨⟩)

omit [DecidableEq T] in
/-- `handleWrite` shuts down where it drains the buffer of a connection that is
disconnecting. -/
theorem Inv.handleWrite (h : Inv w) {r : WriteResult}
    (hr : r.Legal w.conn.outputBuffer.readableBytes)
    (hlast : drains w.conn r = true → w.conn.state = .kDisconnecting →
      (∀ j ∈ w.jobs, j = .user) ∧ ∀ thread, w.foreign thread = .idle) :
    Keeps (w.perform (w.conn.handleWrite r)) := by
  -- behind `shutdownWrite()` the channel does not write, and `POLLOUT` is ignored
  by_cases hfin : .shutdownWrite ∈ w.effects
  · rw [handleWrite_idle (h.finished hfin).silent, perform_nothing]
    exact h
  have hlen : r.Legal w.conn.outputBuffer.readable.length := by
    rw [Buffer.length_readable h.ready.wf]
    exact hr
  obtain ⟨conn', es, hok, hext⟩ := TcpConnection.handleWrite_spec h.ready hlen
  by_cases hd : drains w.conn r = true
  · obtain ⟨conn'', es', hok', hsilent, pre, hes, hpre⟩ := handleWrite_drained h.ready hd
    rw [hok] at hok'
    cases hok'
    rw [hok]
    -- the buffer is empty now; `handleWrite` shuts down if `shutdown` has been called
    by_cases hstate : w.conn.state = .kDisconnecting
    · rw [if_pos hstate] at hes
      subst hes
      obtain ⟨hjobs, hforeign⟩ := hlast hd hstate
      have hcalls : writeCalls (pre ++ [.shutdownWrite]) = writeCalls pre := by
        rw [TcpConnection.writeCalls_append]
        exact List.append_nil _
      have hext' : w.conn.Extends [] conn' pre := by
        refine ⟨hext.ready, hext.state_eq, ?_⟩
        rw [← hcalls]
        exact hext.stream
      refine h.shut hfin hpre hext' (List.append_assoc ..).symm rfl rfl ?_ ?_ hforeign
        (hext.state_eq.trans hstate) hsilent
      · intro m hm
        cases hjobs _ hm
      · intro j hj
        rw [jobs_append { w with conn := conn', effects := w.effects ++ (pre ++ [.shutdownWrite]) }]
          at hj
        rcases mem_jobs_user (fun _ => callbacks_user) hj with hj | hj
        · exact hjobs j hj
        · exact hj
    · rw [if_neg hstate, List.append_nil] at hes
      subst hes
      exact h.performed hfin hpre hext
  · have hes := handleWrite_partial h.ready hr (Bool.eq_false_iff.mpr hd) hok
    rw [hok]
    exact h.performed hfin hes hext

omit [DecidableEq T] in
theorem Inv.shutdown (h : Inv w)
    (hlast : (w.conn.shutdownTest && !w.conn.channel.isWriting) = true →
      (∀ j ∈ w.jobs, j = .user) ∧ ∀ thread, w.foreign thread = .idle) : Keeps w.shutdown := by
  unfold World.shutdown
  split
  case isTrue ht =>
    have hw := h.not_finished (of_decide_eq_true ht)
    refine (h.setState true).shutdownInLoop hw rfl ?_
    intro hsilent
    apply hlast
    have hsilent : w.conn.channel.isWriting = false := hsilent
    rw [ht, hsilent]
    rfl
  case isFalse => exact h

omit [DecidableEq T] in
/-- The functors of a batch are called in their order. -/
theorem jobs_cons {j : Job} {rest : List Job} (hp : w.calling = some (j :: rest)) :
    w.jobs = j :: ({ w with calling := some rest } : World T).jobs := by
  rw [World.jobs, hp]
  rfl

omit [DecidableEq T] in
/-- A functor of the user is called. -/
theorem Inv.next (h : Inv w) {rest : List Job} {j : Job} (hp : w.calling = some (j :: rest))
    (hj : ∀ m, j ≠ .sendInLoop m) : Inv { w with calling := some rest } := by
  have hjobs := jobs_cons hp
  refine h.same rfl rfl rfl rfl ?_ ?_ fun _ => Or.inl rfl
  · intro i hi
    rw [hjobs]
    exact Or.inl (List.mem_cons_of_mem j hi)
  · intro m hm
    rw [hjobs] at hm
    exact (List.mem_cons.mp hm).resolve_left (Ne.symm (hj m))

omit [DecidableEq T] in
theorem Inv.runJob (h : Inv w) {rest : List Job} {j : Job} (hp : w.calling = some (j :: rest))
    {r : WriteResult} (hr : j.mayWrite r = true)
    (hlast : j = .shutdownInLoop → w.conn.channel.isWriting = false →
      (∀ i ∈ w.jobs.tail, i = .user) ∧ ∀ thread, w.foreign thread = .idle) :
    Keeps ({ w with calling := some rest }.runJob j r) := by
  have hjobs := jobs_cons hp
  -- behind `shutdownWrite()` the queue has only functors of the user
  have hunfinished : j ≠ .user → .shutdownWrite ∉ w.effects := by
    intro hj hmem
    apply hj
    apply (h.finished hmem).jobs
    rw [hjobs]
    exact List.mem_cons_self
  cases j with
  | user => exact h.next hp (by rintro _ ⟨⟩)
  | shutdownInLoop =>
      have hstate : w.conn.state = .kDisconnecting := by
        apply h.asked
        rw [hjobs]
        exact Or.inl List.mem_cons_self
      refine (h.next hp (by rintro _ ⟨⟩)).shutdownInLoop (hunfinished (by rintro ⟨⟩)) hstate ?_
      intro hsilent
      obtain ⟨htail, hforeign⟩ := hlast rfl hsilent
      rw [hjobs] at htail
      exact ⟨htail, hforeign⟩
  | sendInLoop m =>
      refine (h.sendInLoop (c := some rest) (n := w.next) (hunfinished (by rintro ⟨⟩)) hr ?_
        ?_).mono (fun _ hv => hv.1) fun _ he => he
      · intro i hi
        rw [hjobs]
        exact List.mem_cons_of_mem _ hi
      · intro k hk
        rw [hjobs] at hk
        rcases List.mem_cons.mp hk with heq | hk
        · cases heq
          exact Or.inl rfl
        · exact Or.inr hk

variable {a : Action T} {r : Except Assertion (World T)} {thread : T}

/-- Another thread goes on from `f` to `g`. -/
theorem goTo_foreign (w : World T) (thread : T) (g : Foreign) (t : T) :
    (w.goTo thread g).foreign t = w.foreign t ∨ (w.goTo thread g).foreign t = g := by
  by_cases ht : t = thread
  · right
    rw [ht]
    exact Function.update_self ..
  · left
    exact Function.update_of_ne ht ..

/-- A call of another thread begins. -/
theorem Inv.begins (h : Inv w) (hc : w.conn.state = .kConnected) {g : Foreign} (hg : g ≠ .set)
    (n : Nat) (called : Bool) :
    Inv ({ w with next := n, called := called }.goTo thread g) := by
  refine h.same rfl rfl rfl rfl (fun _ => Or.inl) (fun _ hm => hm) ?_
  intro t
  rcases goTo_foreign { w with next := n, called := called } thread g t with heq | heq
  · exact Or.inl heq
  · right
    rw [heq]
    exact ⟨hc, hg⟩

omit [DecidableEq T] in
/-- Another thread is not at rest, so `shutdownWrite()` has not been issued. -/
theorem Inv.not_finished_of_foreign (h : Inv w) (hf : w.foreign thread ≠ .idle) :
    .shutdownWrite ∉ w.effects := fun hmem => hf ((h.finished hmem).foreign thread)

theorem post_jobs (w : World T) (thread : T) (j : Job) :
    (w.post thread j).jobs = w.jobs ++ [j] :=
  jobs_append { w with foreign := Function.update w.foreign thread .idle } [j]

/-- A functor of another thread is queued. -/
theorem Inv.post (h : Inv w) (hf : w.foreign thread ≠ .idle) {j : Job}
    (hj : j = .shutdownInLoop → w.conn.state = .kDisconnecting) : Inv (w.post thread j) where
  ready := h.ready
  isUp := h.isUp
  stream := h.stream
  returned := by
    intro m hm
    refine (h.returned m hm).imp_right fun hmem => ?_
    rw [post_jobs]
    exact List.mem_append_left _ hmem
  asked := by
    rw [post_jobs]
    rintro (hmem | ⟨t, hset⟩)
    · rcases List.mem_append.mp hmem with hmem | hmem
      · exact h.asked (Or.inl hmem)
      · exact hj (List.mem_singleton.mp hmem).symm
    · rcases goTo_foreign w thread .idle t with heq | heq
      · exact h.asked (Or.inr ⟨t, heq.symm.trans hset⟩)
      · have hidle : (w.post thread j).foreign t = .idle := heq
        rw [hidle] at hset
        cases hset
  finished := fun hmem => absurd hmem (h.not_finished_of_foreign hf)

/-- Another thread executes `setState(kDisconnecting)`. -/
theorem Inv.set (h : Inv w) (hf : w.foreign thread ≠ .idle) :
    Inv ({ w with conn := w.conn.setState .kDisconnecting }.goTo thread .set) where
  ready := ⟨h.ready.wf, h.ready.writing_iff⟩
  isUp := by rintro ⟨⟩
  stream := h.stream
  returned := h.returned
  asked := fun _ => rfl
  finished := fun hmem => absurd hmem (h.not_finished_of_foreign hf)

/-- **The step lemma.** A step that waits for what is behind it keeps the invariant, and fails
no assertion. -/
theorem Inv.step (h : Inv w) (hwait : Waits w a) (hs : step w a = some r) : Keeps r := by
  cases a with
  | send data wr =>
      obtain ⟨ha, rfl⟩ := of_guard hs
      exact h.send ha
  | shutdown =>
      cases hs
      exact h.shutdown fun hlast => ⟨hwait.jobs hlast, hwait.foreign hlast⟩
  | handleWrite wr =>
      obtain ⟨⟨-, ha⟩, rfl⟩ := of_guard hs
      apply h.handleWrite (legal_of_accepts ha)
      intro hd hstate
      have hlast : w.shutsDown (.handleWrite wr) = true := by
        rw [World.shutsDown, hd, hstate]
        rfl
      exact ⟨hwait.jobs hlast, hwait.foreign hlast⟩
  | swap =>
      obtain ⟨hp, rfl⟩ := of_guard hs
      have hjobs : ({ w with calling := some w.pending, pending := [] } : World T).jobs =
          w.jobs := by
        rw [World.jobs, World.jobs, hp]
        exact List.append_nil _
      exact h.same_jobs rfl rfl rfl rfl hjobs rfl
  | nextJob wr =>
      simp only [GracefulShutdown.step] at hs
      split at hs
      · rename_i j rest hp
        obtain ⟨hr, rfl⟩ := of_guard hs
        apply h.runJob hp hr
        rintro rfl hsilent
        have hlast : w.shutsDown (.nextJob wr) = true := by
          rw [World.shutsDown, hp, hsilent]
          rfl
        exact ⟨hwait.jobs hlast, hwait.foreign hlast⟩
      · cases hs
  | jobsDone =>
      obtain ⟨hp, rfl⟩ := of_guard hs
      have hjobs : ({ w with calling := none } : World T).jobs = w.jobs := by
        rw [World.jobs, World.jobs, hp]
        rfl
      exact h.same_jobs rfl rfl rfl rfl hjobs rfl
  | queueUser =>
      cases hs
      refine h.same rfl rfl rfl rfl ?_ ?_ fun _ => Or.inl rfl
      · rw [jobs_append]
        exact fun j hj => mem_jobs_user (fun _ => List.mem_singleton.mp) hj
      · rw [jobs_append]
        exact fun _ hm => List.mem_append_left _ hm
  | testSend thread data =>
      obtain ⟨⟨-, hc⟩, rfl⟩ := of_guard hs
      exact h.begins hc (by rintro ⟨⟩) (w.next + 1) w.called
  | postSend thread =>
      simp only [GracefulShutdown.step] at hs
      split at hs
      · rename_i m hf
        cases hs
        have hbusy : w.foreign thread ≠ .idle := by
          rw [hf]
          rintro ⟨⟩
        refine (h.post hbusy (by rintro ⟨⟩)).sent (h.not_finished_of_foreign hbusy) (Or.inr ?_)
        rw [post_jobs]
        exact List.mem_append_right _ (List.mem_singleton_self _)
      · cases hs
  | testShutdown thread =>
      obtain ⟨⟨-, hc⟩, rfl⟩ := of_guard hs
      exact h.begins (of_decide_eq_true hc) (by rintro ⟨⟩) w.next true
  | setShutdown thread =>
      obtain ⟨hf, rfl⟩ := of_guard hs
      apply h.set
      rw [hf]
      rintro ⟨⟩
  | postShutdown thread =>
      obtain ⟨hf, rfl⟩ := of_guard hs
      have hbusy : w.foreign thread ≠ .idle := by
        rw [hf]
        rintro ⟨⟩
      exact h.post hbusy fun _ => h.asked (Or.inr ⟨thread, hf⟩)

/-! ## Runs -/

omit [DecidableEq T] in
theorem start_inv (h : Start w) : Inv w := by
  obtain ⟨heffects, hsends, -, hreturned⟩ := h.record
  have hinit : TcpConnection.stream.init ⟨w.conn, [], []⟩ := ⟨rfl, rfl, h.conn⟩
  have hstream := TcpConnection.stream_init hinit
  refine ⟨hstream.ready, ?_, ?_, ?_, ?_, ?_⟩
  · obtain ⟨sockfd, writeComplete, highWater, mark, effects, hok⟩ := h.conn
    have hstate : (TcpConnection.configured sockfd writeComplete highWater mark).state =
        .kConnecting := rfl
    rw [TcpConnection.connectEstablished, check_bind hstate] at hok
    injection hok with hok
    injection hok with hconn _
    rw [← hconn]
    rintro ⟨⟩
  · rw [heffects, hsends]
    exact hstream.stream
  · intro m hm
    rw [hreturned] at hm
    cases hm
  · rintro (hmem | ⟨thread, hset⟩)
    · cases h.jobs _ hmem
    · rw [h.foreign thread] at hset
      cases hset
  · intro hmem
    rw [heffects] at hmem
    cases hmem

/-- No shutdown truncates, is issued twice or is written behind, in any run in which
`shutdownWrite()` waits for the functors and for the threads that are under way; and no
assertion fails. -/
theorem graceful_shutdown (w : World T) (h : runs.Reachable Waits w) :
    Graceful w ∧ ∀ a e, Waits w a → ¬ runs.Fails w a e := by
  obtain ⟨hinv, hsafe⟩ := h.safe (E := fun _ => False) (fun _ h₀ => start_inv h₀)
    fun _ _ _ hs hwait hstep => hs.step hwait hstep
  exact ⟨hinv.graceful, hsafe⟩

/-- A connection that has just come up. -/
def up : World Unit where
  conn := TcpConnection.streamStart.conn
  calling := none
  pending := []
  foreign := fun _ => .idle
  next := 0
  effects := []
  sends := []
  called := false
  returned := []

theorem up_start : Start up where
  conn := ⟨7, false, false, 0, _, rfl⟩
  jobs := by
    intro j hj
    cases hj
  foreign := fun _ => rfl
  record := ⟨rfl, rfl, rfl, rfl⟩

set_option maxRecDepth 10000 in
/-- The message of another thread is written in part, and the loop thread shuts down. -/
theorem graceful_shutdown_sample : ∃ w : World Unit, runs.Reachable Waits w ∧ Graceful w ∧
    w.effects.count .shutdownWrite = 1 ∧ w.returned = [⟨0, [1, 2]⟩] := by
  have hquiet : ∀ a ∈ [Action.testSend () [1, 2], .postSend (), .swap], ∀ w : World Unit,
      Waits w a := by
    intro a ha w
    simp only [List.mem_cons, List.not_mem_nil, or_false] at ha
    rcases ha with rfl | rfl | rfl
    all_goals exact ⟨fun hs => (by cases hs), fun hs => (by cases hs)⟩
  have hrun := System.run_of_exec
    (rfl : runs.exec up [.testSend () [1, 2], .postSend (), .swap] = some (.ok _))
  have hreach := System.Reachable.run (System.Reachable.of_init up_start) (hrun.of_actions hquiet)
  have hsent := hreach.run (System.Run.single (a := .nextJob (.accepted 1))
    ⟨fun hs => (by cases hs), fun hs => (by cases hs)⟩ (by rfl))
  have hdone := hsent.run (System.Run.single (a := .jobsDone)
    ⟨fun hs => (by cases hs), fun hs => (by cases hs)⟩ (by rfl))
  -- one byte is left to the writing
  have hcalled := hdone.run (System.Run.single (a := .shutdown)
    ⟨fun hs => (by cases hs), fun hs => (by cases hs)⟩ (by rfl))
  have hdrained := hcalled.run (System.Run.single (a := .handleWrite (.accepted 1))
    ⟨fun _ _ hj => (by cases hj), fun _ _ => rfl⟩ (by rfl))
  refine ⟨_, hdrained, (graceful_shutdown _ hdrained).1, ?_, ?_⟩
  · rfl
  · rfl

set_option maxRecDepth 10000 in
/-- A shutdown on the loop thread overtakes a message in the queue. The shutdown of another
thread is issued twice if the output buffer is drained while that thread is behind its
`setState`. -/
theorem truncated : (¬ ∀ w : World Unit, runs.Reachable System.always w → Graceful w) ∧
    ∃ w : World Unit, runs.Reachable System.always w ∧ w.effects.count .shutdownWrite = 2 := by
  constructor
  · intro hall
    have hrun := System.run_of_exec
      (rfl : runs.exec up [.testSend () [1], .postSend (), .shutdown] = some (.ok _))
    have hreach := System.Reachable.run (System.Reachable.of_init up_start) hrun
    obtain ⟨before, after, hsends, -⟩ :=
      (hall _ hreach).handed [] [] rfl ⟨0, [1]⟩ (List.mem_singleton_self _)
    exact absurd hsends (List.append_ne_nil_of_right_ne_nil before (List.cons_ne_nil _ after)).symm
  · have hrun := System.run_of_exec
      (rfl : runs.exec up
        [.send [1] (.failed EWOULDBLOCK), .testShutdown (), .setShutdown (),
          .handleWrite (.accepted 1), .postShutdown (), .swap, .nextJob (.accepted 0)] =
        some (.ok _))
    have hreach := System.Reachable.run (System.Reachable.of_init up_start) hrun
    refine ⟨_, hreach, ?_⟩
    rfl

end Zing.Net.GracefulShutdown
