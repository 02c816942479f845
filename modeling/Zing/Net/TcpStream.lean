import Zing.Lib.System
import Zing.Net.TcpConnection

set_option autoImplicit false

/-! # The output stream of a connection

A connection that is up (connected or disconnecting) is driven by calls of `sendInLoop`,
`POLLOUT` events, and the operations that leave it up, in any order, while the kernel answers
each `write` as it likes. Along the run, `calls` are the `write` calls made on the socket and
`messages` the messages passed to `sendInLoop`.

The output stream is the bytes the kernel has accepted followed by the bytes waiting in the
output buffer. `Stream.Inv` says that it is the concatenation of the messages that were not
dropped; what keeps the order is that the connection watches for `POLLOUT` exactly while
bytes are waiting (`writing_iff`).
-/

namespace Zing.Net.TcpConnection

open Zing.Lib

/-! ## The calls of `write` -/

/-- A call of `write` on the socket: the bytes offered and the answer. -/
structure WriteCall where
  data : List Byte
  result : WriteResult
  deriving DecidableEq, Repr

/-- The bytes the kernel accepted in a call. -/
def WriteCall.accepted (c : WriteCall) : List Byte :=
  match c.result with
  | .accepted n => c.data.take n
  | .failed _ => []

/-- The call failed with one of the errors on which `sendInLoop` gives up the message. -/
def WriteCall.fatal (c : WriteCall) : Bool :=
  match c.result with
  | .accepted _ => false
  | .failed errno => errno = EPIPE || errno = ECONNRESET

/-- The calls of `write` among the effects of a function. -/
def writeCalls (effects : List Effect) : List WriteCall :=
  effects.filterMap fun
    | .write data r => some ⟨data, r⟩
    | _ => none

/-- All bytes accepted in a list of calls. -/
def acceptedBytes (calls : List WriteCall) : List Byte := calls.flatMap WriteCall.accepted

theorem acceptedBytes_append (as bs : List WriteCall) :
    acceptedBytes (as ++ bs) = acceptedBytes as ++ acceptedBytes bs := List.flatMap_append

@[simp] theorem writeCalls_nil : writeCalls [] = [] := rfl

theorem writeCalls_append (as bs : List Effect) :
    writeCalls (as ++ bs) = writeCalls as ++ writeCalls bs := List.filterMap_append

theorem writeCalls_highWater (conn : TcpConnection) (n : Nat) :
    writeCalls (conn.highWaterEffects n) = [] := by
  rw [highWaterEffects]
  split
  · rfl
  · rfl

theorem writeCalls_shutdownInLoop (conn : TcpConnection) :
    writeCalls conn.shutdownInLoop = [] := by
  rw [shutdownInLoop]
  split
  · rfl
  · rfl

theorem writeCalls_writeComplete (conn : TcpConnection) :
    writeCalls conn.writeCompleteEffects = [] := by
  rw [writeCompleteEffects]
  split
  · rfl
  · rfl

theorem writeCalls_outputDrained (conn : TcpConnection) :
    writeCalls conn.outputDrained.2 = [] := by
  show writeCalls (_ :: _ ++ _) = []
  rw [writeCalls_append]
  show writeCalls (writeCompleteEffects _) ++ _ = []
  rw [writeCalls_writeComplete, List.nil_append]
  split
  · exact writeCalls_shutdownInLoop _
  · rfl

/-- A message passed to `sendInLoop`; it is dropped if `write` was called for it and failed
with `EPIPE` or `ECONNRESET`. -/
structure Message where
  data : List Byte
  dropped : Bool
  deriving DecidableEq, Repr

/-- The messages that were not dropped, one after the other. -/
def keptBytes (messages : List Message) : List Byte :=
  (messages.filter fun m => !m.dropped).flatMap Message.data

theorem keptBytes_append (as bs : List Message) :
    keptBytes (as ++ bs) = keptBytes as ++ keptBytes bs := by
  rw [keptBytes, List.filter_append, List.flatMap_append]
  rfl

/-! ## What `sendInLoop` and `handleWrite` do to the stream -/

/-- The part of the connection the stream depends on: the buffer is well-formed, and the
connection watches for `POLLOUT` exactly while bytes are waiting. -/
structure Ready (conn : TcpConnection) : Prop where
  wf : conn.outputBuffer.WF
  writing_iff : conn.channel.isWriting = true ↔ conn.outputBuffer.readable ≠ []

theorem Ready.writesDirectly_iff {conn : TcpConnection} (h : conn.Ready) :
    conn.writesDirectly = true ↔ conn.outputBuffer.readable = [] := by
  have hnil := Buffer.readable_eq_nil_iff h.wf
  rw [writesDirectly, Bool.and_eq_true, decide_eq_true_eq, ← hnil]
  constructor
  · exact fun hd => hd.2
  · intro hd
    refine ⟨?_, hd⟩
    rw [Bool.not_eq_true', Bool.eq_false_iff]
    exact fun hw => h.writing_iff.mp hw hd

/-- How the first half of `sendInLoop` splits a message into the bytes written and the bytes
remaining. -/
structure Direct.Splits (conn : TcpConnection) (data : List Byte) (d : Direct) : Prop where
  lengths : d.nwrote + d.remaining = data.length
  fault_eq : d.faultError = (writeCalls d.effects).any WriteCall.fatal
  dropped : d.faultError = true →
    conn.outputBuffer.readable = [] ∧ acceptedBytes (writeCalls d.effects) = []
  written : d.faultError = false → acceptedBytes (writeCalls d.effects) = data.take d.nwrote
  direct : conn.outputBuffer.readable ≠ [] → writeCalls d.effects = []

theorem directWrite_splits {conn : TcpConnection} (h : conn.Ready) (data : List Byte)
    {r : WriteResult} (hr : r.Legal data.length) :
    (conn.directWrite data r).Splits conn data := by
  by_cases hd : conn.writesDirectly = true
  · have hempty := h.writesDirectly_iff.mp hd
    cases r with
    | accepted n =>
        have hn : n ≤ data.length := hr
        have hcalls : writeCalls (conn.directWrite data (.accepted n)).effects
            = [⟨data, .accepted n⟩] := by
          have hrest : writeCalls
              (if data.length - n = 0 then conn.writeCompleteEffects else []) = [] := by
            split
            · exact writeCalls_writeComplete conn
            · rfl
          rw [directWrite, if_pos hd]
          show ⟨data, .accepted n⟩ :: writeCalls _ = _
          rw [hrest]
        have hfault : (conn.directWrite data (.accepted n)).faultError = false := by
          rw [directWrite, if_pos hd]
        have hnwrote : (conn.directWrite data (.accepted n)).nwrote = n := by
          rw [directWrite, if_pos hd]
        refine ⟨?_, ?_, ?_, ?_, fun hne => absurd hempty hne⟩
        · rw [directWrite, if_pos hd]
          exact Nat.add_sub_cancel' hn
        · rw [hfault, hcalls]
          rfl
        · intro hf
          rw [hfault] at hf
          cases hf
        · intro _
          rw [hcalls, hnwrote]
          exact List.append_nil _
    | failed errno =>
        have heq : conn.directWrite data (.failed errno)
            = ⟨0, data.length, decide (errno ≠ EWOULDBLOCK ∧ (errno = EPIPE ∨ errno = ECONNRESET)),
                [.write data (.failed errno)]⟩ := by
          rw [directWrite, if_pos hd]
        rw [heq]
        refine ⟨Nat.zero_add _, ?_, fun _ => ⟨hempty, rfl⟩, fun _ => rfl,
          fun hne => absurd hempty hne⟩
        -- neither fatal error is `EWOULDBLOCK`
        show decide _ = ((errno = EPIPE || errno = ECONNRESET) || false)
        by_cases h₁ : errno = EPIPE
        · subst h₁
          rfl
        · by_cases h₂ : errno = ECONNRESET
          · subst h₂
            rfl
          · simp [h₁, h₂]
  · have heq : conn.directWrite data r = ⟨0, data.length, false, []⟩ := by
      unfold directWrite
      rw [if_neg hd]
    rw [heq]
    exact ⟨Nat.zero_add _, rfl, (fun hf => nomatch hf), fun _ => rfl, fun _ => rfl⟩

/-- The bytes `sendInLoop` puts into the output buffer are the rest of the message. -/
theorem Direct.Splits.rest {conn : TcpConnection} {data : List Byte} {d : Direct}
    (h : d.Splits conn data) :
    (data.drop d.nwrote).take d.remaining = data.drop d.nwrote := by
  have hl := h.lengths
  exact List.take_of_length_le (by rw [List.length_drop]; omega)

/-- A direct write happens only on an empty buffer, so the bytes it writes may be put on
either side of the buffered ones. -/
theorem Direct.Splits.accepted_comm {conn : TcpConnection} {data : List Byte} {d : Direct}
    (h : d.Splits conn data) :
    acceptedBytes (writeCalls d.effects) ++ conn.outputBuffer.readable
      = conn.outputBuffer.readable ++ acceptedBytes (writeCalls d.effects) := by
  by_cases hne : conn.outputBuffer.readable = []
  · rw [hne, List.append_nil, List.nil_append]
  · rw [h.direct hne]
    exact (List.append_nil _).symm

/-- What a call does to the stream: `new` bytes are appended to the bytes accepted and
waiting, and bytes that were waiting are not overtaken by a direct write. -/
structure Extends (conn : TcpConnection) (new : List Byte) (conn' : TcpConnection)
    (effects : List Effect) : Prop where
  ready : conn'.Ready
  state_eq : conn'.state = conn.state
  stream : acceptedBytes (writeCalls effects) ++ conn'.outputBuffer.readable
    = conn.outputBuffer.readable ++ new

/-- The second half of `sendInLoop`, for a message that is not dropped. -/
theorem bufferRemaining_spec {conn : TcpConnection} (h : conn.Ready) {data : List Byte}
    {d : Direct} (hd : d.Splits conn data) (hf : d.faultError = false) :
    ∃ conn' effects, conn.bufferRemaining data d = .ok (conn', effects)
      ∧ conn.Extends data conn' effects ∧ writeCalls effects = writeCalls d.effects := by
  have hl := hd.lengths
  have hwritten := hd.written hf
  rw [bufferRemaining, check_bind (by omega)]
  by_cases hrem : 0 < d.remaining
  · rw [if_pos (by simp [hf, hrem])]
    obtain ⟨out, hout, hwf, hread, -⟩ :=
      Buffer.append_spec h.wf ((data.drop d.nwrote).take d.remaining)
    rw [hd.rest] at hread
    have hnonempty : out.readable ≠ [] := by
      intro hnil
      have hlen := congrArg List.length hnil
      rw [hread, List.length_append, List.length_drop, List.length_nil] at hlen
      omega
    have hstream : acceptedBytes (writeCalls d.effects) ++ out.readable
        = conn.outputBuffer.readable ++ data := by
      calc acceptedBytes (writeCalls d.effects) ++ out.readable
          = (acceptedBytes (writeCalls d.effects) ++ conn.outputBuffer.readable)
              ++ data.drop d.nwrote := by rw [hread, List.append_assoc]
        _ = conn.outputBuffer.readable ++ (data.take d.nwrote ++ data.drop d.nwrote) := by
            rw [hd.accepted_comm, hwritten, List.append_assoc]
        _ = conn.outputBuffer.readable ++ data := by rw [List.take_append_drop]
    rw [hout]
    by_cases hw : conn.channel.isWriting = true
    · have hcalls : writeCalls (d.effects ++ conn.highWaterEffects d.remaining)
          = writeCalls d.effects := by
        rw [writeCalls_append, writeCalls_highWater, List.append_nil]
      refine ⟨{ conn with outputBuffer := out }, d.effects ++ conn.highWaterEffects d.remaining,
        by simp [hw], ⟨⟨hwf, fun _ => hnonempty, fun _ => hw⟩, rfl, ?_⟩, hcalls⟩
      rw [hcalls]
      exact hstream
    · have hcalls : writeCalls
          (d.effects ++ conn.highWaterEffects d.remaining ++ [.updateChannel])
          = writeCalls d.effects := by
        rw [writeCalls_append, writeCalls_append, writeCalls_highWater, List.append_nil]
        exact List.append_nil _
      refine ⟨{ conn with outputBuffer := out, channel := conn.channel.enableWriting },
        d.effects ++ conn.highWaterEffects d.remaining ++ [.updateChannel],
        by simp [hw], ⟨⟨hwf, fun _ => hnonempty, fun _ => ?_⟩, rfl, ?_⟩, hcalls⟩
      · exact Channel.isWriting_enableWriting _
      · rw [hcalls]
        exact hstream
  · rw [if_neg (by simp [hrem])]
    refine ⟨conn, d.effects, rfl, ⟨h, rfl, ?_⟩, rfl⟩
    rw [hd.accepted_comm, hwritten, List.take_of_length_le (by omega)]

/-- **One call of `sendInLoop`.** It fails no assertion; it appends its message to the
stream, or drops it whole because `write` failed with a fatal error; and it calls `write`
only when nothing is waiting. -/
theorem sendInLoop_spec {conn : TcpConnection} (h : conn.Ready)
    (hup : conn.state ≠ .kDisconnected) (data : List Byte) {r : WriteResult}
    (hr : r.Legal data.length) :
    ∃ conn' effects, conn.sendInLoop data r = .ok (conn', effects)
      ∧ conn.Extends (if (writeCalls effects).any WriteCall.fatal then [] else data) conn' effects
      ∧ (conn.outputBuffer.readable ≠ [] → writeCalls effects = []) := by
  have hd := directWrite_splits h data hr
  rw [sendInLoop, if_neg hup]
  by_cases hf : (conn.directWrite data r).faultError = true
  · obtain ⟨hempty, hnone⟩ := hd.dropped hf
    have hl := hd.lengths
    refine ⟨conn, (conn.directWrite data r).effects, ?_, ⟨h, rfl, ?_⟩, hd.direct⟩
    · rw [bufferRemaining, check_bind (by omega), if_neg (by simp [hf])]
      rfl
    · rw [← hd.fault_eq, if_pos hf, hnone, hempty]
  · have hf' : (conn.directWrite data r).faultError = false := by simpa using hf
    obtain ⟨conn', effects, hok, hext, hcalls⟩ := bufferRemaining_spec h hd hf'
    refine ⟨conn', effects, hok, ?_, ?_⟩
    · rw [hcalls, ← hd.fault_eq, hf']
      exact hext
    · rw [hcalls]
      exact hd.direct

/-- **One `POLLOUT` event.** It fails no assertion and appends nothing to the stream. -/
theorem handleWrite_spec {conn : TcpConnection} (h : conn.Ready) {r : WriteResult}
    (hr : r.Legal conn.outputBuffer.readable.length) :
    ∃ conn' effects, conn.handleWrite r = .ok (conn', effects)
      ∧ conn.Extends [] conn' effects := by
  rw [handleWrite]
  by_cases hw : conn.channel.isWriting = true
  · rw [if_pos hw]
    cases r with
    | failed errno =>
        refine ⟨conn, _, rfl, h, rfl, ?_⟩
        rw [List.append_nil]
        rfl
    | accepted n =>
        have hn : n ≤ conn.outputBuffer.readable.length := hr
        by_cases hpos : 0 < n
        · have hle : n ≤ conn.outputBuffer.readableBytes := by
            rw [← Buffer.length_readable h.wf]
            exact hn
          obtain ⟨out, hout, hwf, hread, -⟩ := Buffer.retrieve_spec h.wf hle
          have hnil := Buffer.readable_eq_nil_iff hwf
          -- the stream, whatever else the function does
          have hstream : ∀ effects, writeCalls effects = [] →
              acceptedBytes (writeCalls
                (.write conn.outputBuffer.readable (.accepted n) :: effects)) ++ out.readable
                = conn.outputBuffer.readable ++ [] := by
            intro effects heff
            show (conn.outputBuffer.readable.take n ++ acceptedBytes (writeCalls effects))
              ++ out.readable = _
            rw [heff, hread, List.append_nil]
            show (_ ++ []) ++ _ = _
            rw [List.append_nil, List.take_append_drop]
          simp only [if_pos hpos, hout, nested_ok, ok_bind]
          by_cases hempty : out.readableBytes = 0
          · rw [if_pos hempty]
            refine ⟨_, _, rfl, ⟨hwf, ?_⟩, rfl, hstream _ ?_⟩
            · show (conn.channel.disableWriting).isWriting = true ↔ out.readable ≠ []
              rw [Channel.isWriting_disableWriting, hnil.mpr hempty]
              exact ⟨(fun hc => nomatch hc), fun hc => absurd rfl hc⟩
            · exact writeCalls_outputDrained _
          · rw [if_neg hempty]
            refine ⟨_, _, rfl, ⟨hwf, fun _ => ?_, fun _ => hw⟩, rfl, hstream [] rfl⟩
            exact fun hc => hempty (hnil.mp hc)
        · have hzero : n = 0 := Nat.eq_zero_of_not_pos hpos
          subst hzero
          refine ⟨conn, _, rfl, h, rfl, ?_⟩
          rw [List.append_nil]
          rfl
  · rw [if_neg hw]
    refine ⟨conn, _, rfl, h, rfl, ?_⟩
    rw [List.append_nil]
    rfl

/-! ## Runs of a connection that is up -/

/-- The connection, the `write` calls made on its socket, and the messages passed to
`sendInLoop`. -/
structure StreamState where
  conn : TcpConnection
  calls : List WriteCall
  messages : List Message
  deriving DecidableEq

/-- What happens to the connection; the kernel's answer to a `write` comes with the action
that may call it. -/
inductive StreamAction
  | sendInLoop (data : List Byte) (r : WriteResult)
  | handleWrite (r : WriteResult)
  | shutdown
  | startReadInLoop
  | stopReadInLoop
  deriving DecidableEq, Repr

/-- The connection is connected or disconnecting. -/
def isUp (conn : TcpConnection) : Bool := conn.forceCloseTest

def StreamState.step (s : StreamState) : StreamAction → Option (Except Assertion StreamState)
  | .sendInLoop data r =>
      if s.conn.isUp ∧ r.Legal data.length then
        some do
          let (conn, effects) ← s.conn.sendInLoop data r
          return { conn := conn
                   calls := s.calls ++ writeCalls effects
                   messages := s.messages ++ [⟨data, (writeCalls effects).any WriteCall.fatal⟩] }
      else
        none
  | .handleWrite r =>
      if s.conn.isUp ∧ r.Legal s.conn.outputBuffer.readable.length then
        some do
          let (conn, effects) ← s.conn.handleWrite r
          return { s with conn := conn, calls := s.calls ++ writeCalls effects }
      else
        none
  | .shutdown =>
      if s.conn.shutdownTest then
        some (.ok { s with conn := s.conn.setState .kDisconnecting })
      else
        none
  | .startReadInLoop =>
      if s.conn.isUp then some (.ok { s with conn := s.conn.startReadInLoop.1 }) else none
  | .stopReadInLoop =>
      if s.conn.isUp then some (.ok { s with conn := s.conn.stopReadInLoop.1 }) else none

/-- A connection as its constructor and its setters leave it. -/
def configured (sockfd : Nat) (writeComplete highWater : Bool) (mark : Nat) :
    TcpConnection :=
  { new sockfd with
    writeCompleteCallback := writeComplete
    highWaterMarkCallback := highWater
    highWaterMark := mark }

/-- A connection from the moment `connectEstablished` has brought it up. -/
def stream : System StreamState StreamAction Assertion where
  init s := s.calls = [] ∧ s.messages = []
    ∧ ∃ sockfd writeComplete highWater mark effects,
        (configured sockfd writeComplete highWater mark).connectEstablished
          = .ok (s.conn, effects)
  step := StreamState.step

/-- The invariant of the output stream. -/
structure StreamState.Inv (s : StreamState) : Prop where
  ready : s.conn.Ready
  stream : acceptedBytes s.calls ++ s.conn.outputBuffer.readable = keptBytes s.messages

theorem stream_init {s : StreamState} (h : stream.init s) : s.Inv := by
  obtain ⟨hcalls, hmsgs, sockfd, writeComplete, highWater, mark, effects, hest⟩ := h
  have hconn : s.conn.outputBuffer = Buffer.new ∧ s.conn.channel.isWriting = false := by
    have hstate : (configured sockfd writeComplete highWater mark).state = .kConnecting := rfl
    rw [connectEstablished, check_bind hstate] at hest
    injection hest with hest
    injection hest with hconn _
    rw [← hconn]
    exact ⟨rfl, rfl⟩
  refine ⟨⟨?_, ?_⟩, ?_⟩
  · rw [hconn.1]
    exact Buffer.new_wf _
  · rw [hconn.1, hconn.2, Buffer.new_readable]
    exact ⟨(fun hc => nomatch hc), fun hc => absurd rfl hc⟩
  · rw [hcalls, hmsgs, hconn.1, Buffer.new_readable]
    rfl

/-- The operations that only change the read interest or the state keep the stream. -/
theorem StreamState.Inv.of_conn {s : StreamState} (h : s.Inv) {conn : TcpConnection}
    (hout : conn.outputBuffer = s.conn.outputBuffer)
    (hw : conn.channel.isWriting = s.conn.channel.isWriting) :
    StreamState.Inv { s with conn := conn } := by
  refine ⟨⟨?_, ?_⟩, ?_⟩
  · rw [hout]
    exact h.ready.wf
  · rw [hw, hout]
    exact h.ready.writing_iff
  · rw [hout]
    exact h.stream

theorem ne_disconnected_of_isUp {conn : TcpConnection} (hup : conn.isUp = true) :
    conn.state ≠ .kDisconnected := by
  intro hd
  simp [isUp, forceCloseTest, hd] at hup

/-- **The step lemma.** A step that is possible fails no assertion and keeps the
invariant. -/
theorem stream_step {s : StreamState} (h : s.Inv) {a : StreamAction}
    {r : Except Assertion StreamState} (hr : s.step a = some r) : ∃ t, r = .ok t ∧ t.Inv := by
  cases a with
  | sendInLoop data r =>
      obtain ⟨⟨hup, hlegal⟩, rfl⟩ := of_guard hr
      obtain ⟨conn, effects, hok, hext, -⟩ :=
        sendInLoop_spec h.ready (ne_disconnected_of_isUp hup) data hlegal
      rw [hok]
      refine ⟨_, rfl, hext.ready, ?_⟩
      show acceptedBytes (s.calls ++ writeCalls effects) ++ conn.outputBuffer.readable
        = keptBytes (s.messages ++ [⟨data, (writeCalls effects).any WriteCall.fatal⟩])
      rw [acceptedBytes_append, List.append_assoc, hext.stream, ← List.append_assoc, h.stream,
        keptBytes_append]
      congr 1
      by_cases hf : (writeCalls effects).any WriteCall.fatal = true
      · simp [keptBytes, hf]
      · simp [keptBytes, hf]
  | handleWrite r =>
      obtain ⟨⟨-, hlegal⟩, rfl⟩ := of_guard hr
      obtain ⟨conn, effects, hok, hext⟩ := handleWrite_spec h.ready hlegal
      rw [hok]
      refine ⟨_, rfl, hext.ready, ?_⟩
      show acceptedBytes (s.calls ++ writeCalls effects) ++ conn.outputBuffer.readable = _
      rw [acceptedBytes_append, List.append_assoc, hext.stream, ← List.append_assoc, h.stream,
        List.append_nil]
  | shutdown =>
      obtain ⟨-, rfl⟩ := of_guard hr
      exact ⟨_, rfl, h.of_conn rfl rfl⟩
  | startReadInLoop =>
      obtain ⟨-, rfl⟩ := of_guard hr
      refine ⟨_, rfl, h.of_conn ?_ ?_⟩
      · rw [startReadInLoop]
        split
        · rfl
        · rfl
      · rw [startReadInLoop]
        split
        · exact Channel.isWriting_enableReading _
        · rfl
  | stopReadInLoop =>
      obtain ⟨-, rfl⟩ := of_guard hr
      refine ⟨_, rfl, h.of_conn ?_ ?_⟩
      · rw [stopReadInLoop]
        split
        · rfl
        · rfl
      · rw [stopReadInLoop]
        split
        · exact Channel.isWriting_disableReading _
        · rfl

theorem stream_next {s t : StreamState} {a : StreamAction} (h : s.Inv)
    (hn : stream.Next s a t) : t.Inv := by
  obtain ⟨t', heq, hinv⟩ := stream_step h hn
  cases heq
  exact hinv

theorem stream_inv {s : StreamState} (h : stream.Reachable System.always s) : s.Inv :=
  h.invariant (fun _ hs => stream_init hs) fun _ _ _ hs _ hn => stream_next hs hn

/-- **Output stream integrity.** In every state a connection that is up can reach, the bytes
accepted by the kernel followed by those waiting in the output buffer are the messages passed
to `sendInLoop`, in order, without those dropped on a fatal error; while bytes are waiting
the connection watches for `POLLOUT` and no message is written directly; and no assertion
fails. -/
theorem output_stream_integrity {s : StreamState} (h : stream.Reachable System.always s) :
    acceptedBytes s.calls ++ s.conn.outputBuffer.readable = keptBytes s.messages
      ∧ (s.conn.outputBuffer.readable ≠ [] → s.conn.channel.isWriting = true)
      ∧ (∀ data r conn effects, r.Legal data.length → s.conn.isUp = true →
          s.conn.sendInLoop data r = .ok (conn, effects) →
          s.conn.outputBuffer.readable ≠ [] → writeCalls effects = [])
      ∧ ∀ a e, ¬ stream.Fails s a e := by
  have hinv := stream_inv h
  refine ⟨hinv.stream, hinv.ready.writing_iff.mpr, ?_, ?_⟩
  · intro data r conn effects hr hup hok hne
    obtain ⟨conn', effects', hok', -, hdirect⟩ :=
      sendInLoop_spec hinv.ready (ne_disconnected_of_isUp hup) data hr
    rw [hok] at hok'
    cases hok'
    exact hdirect hne
  · intro a e hf
    obtain ⟨t, ht, -⟩ := stream_step hinv hf
    cases ht

/-- A connection that has just come up. -/
def streamStart : StreamState where
  conn := { configured 7 false false 0 with
    state := .kConnected
    channel := (Channel.new 7).tie.enableReading }
  calls := []
  messages := []

set_option maxRecDepth 10000 in
/-- The first message is written in part, the second waits behind it, a `POLLOUT` event
drains both, and a third is dropped. -/
theorem output_stream_integrity_sample :
    ∃ s, stream.Reachable System.always s
      ∧ acceptedBytes s.calls ++ s.conn.outputBuffer.readable = [1, 2, 3, 4, 5]
      ∧ s.messages.length = 3 := by
  have hinit : stream.init streamStart := ⟨rfl, rfl, 7, false, false, 0, _, rfl⟩
  have hrun : stream.Run System.always streamStart
      [.sendInLoop [1, 2, 3] (.accepted 1), .sendInLoop [4, 5] (.accepted 2), .shutdown,
        .handleWrite (.accepted 4), .sendInLoop [6] (.failed EPIPE)] _ :=
    System.run_of_exec rfl
  have hreach := (System.Reachable.of_init hinit).run hrun
  exact ⟨_, hreach, (output_stream_integrity hreach).1.trans rfl, rfl⟩

end Zing.Net.TcpConnection
