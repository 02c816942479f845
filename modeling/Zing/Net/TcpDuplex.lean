import Zing.Net.BufferQueue
import Zing.Net.BufferReadFd
import Zing.Net.SendBuffer

set_option autoImplicit false

/-! # Both streams of a connection

`TcpConnection::handleRead` and what the user does on the loop thread: it takes bytes out of the
input buffer, in its message callback or later, and sends, the input buffer included. Along a
run `received` are the bytes that `readv` delivered and `consumed` those that the user took;
`calls` and `messages` are the output as in `TcpStream`.

`duplex_integrity` says that neither direction loses, repeats or reorders a byte, whatever the
kernel answers and however the calls interleave, up to and behind the close.
-/

namespace Zing.Net

open Zing.Lib

namespace Buffer

variable {b : Buffer} {data : List Byte}

/-- `readFd` where the data fits into the buffer. -/
theorem readFd_fits (h : b.WF) (savedErrno : Nat) (extrabuf : Vector Byte extrabufSize)
    (hfits : data.length ≤ b.writableBytes) :
    ∃ b', b.readFd savedErrno extrabuf (.received data) = .ok (b', savedErrno, data.length) ∧
      b'.WF ∧ b'.readable = b.readable ++ data := by
  obtain ⟨-, hwf, hread⟩ := copyToWrite_commit h hfits
  simp only [readFd, (scatter_iov (b := b) data).1]
  rw [if_pos hfits, List.take_of_length_le hfits]
  exact ⟨_, rfl, hwf, hread⟩

/-- `readFd` where a part of the data goes through the array on the stack. -/
theorem readFd_spills (h : b.WF) (savedErrno : Nat) (extrabuf : Vector Byte extrabufSize)
    (hle : data.length ≤ b.iov.sum) (hlt : b.writableBytes < data.length) :
    ∃ b', b.readFd savedErrno extrabuf (.received data) = .ok (b', savedErrno, data.length) ∧
      b'.WF ∧ b'.readable = b.readable ++ data := by
  obtain ⟨hfirst, hsecond⟩ := scatter_iov (b := b) data
  obtain ⟨hrest, -⟩ := hsecond hle hlt
  have hlen : (data.take b.writableBytes).length = b.writableBytes :=
    List.length_take_of_le hlt.le
  obtain ⟨hsize, hwf, hread⟩ := copyToWrite_commit h hlen.le
  -- `writerIndex_ = buffer_.size()` is where the first vector ends
  have hend : b.writerIndex + (data.take b.writableBytes).length =
      (b.copyToWrite (data.take b.writableBytes)).buffer.length := by
    have hw := h.writer_le
    rw [hsize, hlen, writableBytes]
    omega
  rw [hend] at hwf hread
  obtain ⟨b', hok, hwf', hread', -⟩ := append_spec hwf (data.drop b.writableBytes)
  have htake : (overwrite extrabuf.toList 0 (data.drop b.writableBytes)).take
      (data.length - b.writableBytes) = data.drop b.writableBytes := by
    rw [← List.length_drop]
    exact take_overwrite_zero _ _
  simp only [readFd, hfirst]
  rw [if_neg (Nat.not_le_of_lt hlt), hrest, htake, hok]
  refine ⟨b', rfl, hwf', ?_⟩
  rw [hread', hread, List.append_assoc, List.take_append_drop]

/-- A successful `readFd` puts what was received behind what is readable. -/
theorem readFd_received (h : b.WF) (savedErrno : Nat) (extrabuf : Vector Byte extrabufSize)
    (hle : data.length ≤ b.iov.sum) :
    ∃ b', b.readFd savedErrno extrabuf (.received data) = .ok (b', savedErrno, data.length) ∧
      b'.WF ∧ b'.readable = b.readable ++ data := by
  by_cases hfits : data.length ≤ b.writableBytes
  · exact readFd_fits h savedErrno extrabuf hfits
  · exact readFd_spills h savedErrno extrabuf hle (Nat.lt_of_not_le hfits)

namespace Op

/-- The operations with which a user takes bytes out of a buffer. -/
def consumes : Op → Bool
  | retrieve _ => true
  | retrieveUntil _ => true
  | retrieveAll => true
  | retrieveAsString _ => true
  | _ => false

/-- The bytes that such an operation takes. -/
def taken (q : List Byte) : Op → List Byte
  | retrieve len => q.take len
  | retrieveUntil n => q.take n
  | retrieveAll => q
  | retrieveAsString len => q.take len
  | _ => []

/-- What is taken was in front of what is left. -/
theorem taken_append (q : List Byte) {o : Op} (ho : o.consumes = true) :
    o.taken q ++ o.effect q = q := by
  cases o with
  | retrieve len => exact List.take_append_drop len q
  | retrieveUntil n => exact List.take_append_drop n q
  | retrieveAll => exact List.append_nil q
  | retrieveAsString len => exact List.take_append_drop len q
  | _ => cases ho

end Op

end Buffer

namespace TcpConnection

open Zing.Base (StringPiece)

/-- What `handleRead` comes to. -/
inductive Handled
  | messageCallback
  | handleClose
  | handleError (errno : Nat)
  deriving DecidableEq, Repr

/-- `handleRead`, up to the callbacks of the user. -/
def handleRead (conn : TcpConnection) (extrabuf : Vector Byte Buffer.extrabufSize)
    (r : ReadvResult) : Except Assertion (TcpConnection × List Effect × Handled) := do
  let (inputBuffer, savedErrno, n) ← nested .buffer (conn.inputBuffer.readFd 0 extrabuf r)
  let conn := { conn with inputBuffer := inputBuffer }
  if 0 < n then
    return (conn, [], .messageCallback)
  else if n = 0 then do
    let (conn, effects) ← conn.handleClose
    return (conn, effects, .handleClose)
  else
    return (conn, [], .handleError savedErrno)

/-- `send(const StringPiece&)` on the loop thread. -/
def send (conn : TcpConnection) (message : StringPiece) (k : Kernel) :
    Except SendFault (TcpConnection × List Effect) :=
  if conn.state = .kConnected then conn.sendPieceInLoop message k else return (conn, [])

/-- A connection, and what went through it. -/
structure Duplex where
  conn : TcpConnection
  received : List Byte
  consumed : List Byte
  calls : List WriteCall
  messages : List Message

namespace Duplex

variable (s : Duplex)

/-- The bytes of an answer of `readv`. -/
def bytesOf : ReadvResult → List Byte
  | .received data => data
  | .failed _ => []

def read (extrabuf : Vector Byte Buffer.extrabufSize) (r : ReadvResult) :
    Except SendFault (Duplex × Handled) := do
  let (conn, _, handled) ← nested .connection (s.conn.handleRead extrabuf r)
  return ({ s with conn := conn, received := s.received ++ bytesOf r }, handled)

/-- The user takes bytes out of the input buffer. -/
def take (o : Buffer.Op) : Except SendFault (List Byte × Duplex) := do
  let (str, b) ← nested (.connection ∘ .buffer) (o.exec s.conn.inputBuffer)
  return (str, { s with
    conn := { s.conn with inputBuffer := b }
    consumed := s.consumed ++ o.taken s.conn.inputBuffer.readable })

/-- The record of a call that has passed `data` to `sendInLoop`, if it came so far. -/
def sent (r : TcpConnection × List Effect) (data : List Byte) : Duplex :=
  { s with
    conn := r.1
    calls := s.calls ++ writeCalls r.2
    messages := if s.conn.state = .kConnected then
        s.messages ++ [⟨data, (writeCalls r.2).any WriteCall.fatal⟩] else s.messages }

def send (message : StringPiece) (k : Kernel) : Except SendFault Duplex := do
  let r ← s.conn.send message k
  return s.sent r (message.bytes.getD [])

/-- `send(Buffer*)` with the input buffer. -/
def sendInput (k : Kernel) : Except SendFault Duplex := do
  let data := s.conn.inputBuffer.readable
  let (r, buf) ← s.conn.sendBuffer s.conn.inputBuffer k
  return { s.sent ({ r.1 with inputBuffer := buf }, r.2) data with
    consumed := if s.conn.state = StateE.kConnected then s.consumed ++ data else s.consumed }

def write (k : Kernel) : Except SendFault Duplex := do
  let (conn, effects) ← nested .connection
    (s.conn.handleWrite (k.write s.conn.outputBuffer.readable))
  return { s with conn := conn, calls := s.calls ++ writeCalls effects }

def close : Except SendFault Duplex := do
  let (conn, _) ← nested .connection s.conn.handleClose
  return { s with conn := conn }

end Duplex

/-- What happens to the connection. `close` is the `handleClose` of a hang-up or of
`forceCloseInLoop`. -/
inductive DuplexAction
  | read (extrabuf : Vector Byte Buffer.extrabufSize) (r : ReadvResult)
  | take (o : Buffer.Op)
  | send (message : StringPiece) (k : Kernel)
  | sendInput (k : Kernel)
  | write (k : Kernel)
  | close
  | shutdown
  | startRead
  | stopRead

def Duplex.step (s : Duplex) : DuplexAction → Option (Except SendFault Duplex)
  | .read extrabuf r => some ((s.read extrabuf r).map Prod.fst)
  | .take o => some ((s.take o).map Prod.snd)
  | .send message k => some (s.send message k)
  | .sendInput k => some (s.sendInput k)
  | .write k => some (s.write k)
  | .close => some s.close
  | .shutdown =>
      if s.conn.shutdownTest then
        some (.ok { s with conn := s.conn.setState .kDisconnecting })
      else none
  | .startRead => some (.ok { s with conn := s.conn.startReadInLoop.1 })
  | .stopRead => some (.ok { s with conn := s.conn.stopReadInLoop.1 })

/-- A connection from the moment `connectEstablished` has brought it up. -/
def duplex : System Duplex DuplexAction SendFault where
  init s := s.received = [] ∧ s.consumed = [] ∧ s.calls = [] ∧ s.messages = [] ∧
    ∃ sockfd writeComplete highWater mark effects,
      (configured sockfd writeComplete highWater mark).connectEstablished = .ok (s.conn, effects)
  step := Duplex.step

/-- `readv` receives no more than there is room for, the user takes no more than there is, and
there are the bytes that it sends. -/
def Fair (s : Duplex) : DuplexAction → Prop
  | .read _ r => r.Legal s.conn.inputBuffer.iov
  | .take o => o.consumes = true ∧ o.entry s.conn.inputBuffer
  | .send message _ => message.bytes ≠ none
  | _ => True

/-! ## One call -/

/-- Both directions of a connection. -/
structure Duplex.Inv (s : Duplex) : Prop where
  input : s.conn.inputBuffer.WF
  received : s.received = s.consumed ++ s.conn.inputBuffer.readable
  ready : s.conn.state ≠ .kDisconnected → s.conn.Ready
  closed : s.conn.state = .kDisconnected → s.conn.channel.isWriting = false
  stream : acceptedBytes s.calls ++ s.conn.outputBuffer.readable = keptBytes s.messages

variable {s t : Duplex} {conn conn' : TcpConnection}

/-- What an operation does that leaves the input buffer alone. -/
theorem Duplex.Inv.output (h : s.Inv) (conn : TcpConnection)
    (hin : conn.inputBuffer = s.conn.inputBuffer)
    (hready : conn.state ≠ .kDisconnected → conn.Ready)
    (hclosed : conn.state = .kDisconnected → conn.channel.isWriting = false)
    {calls : List WriteCall} {messages : List Message}
    (hstream : acceptedBytes calls ++ conn.outputBuffer.readable = keptBytes messages) :
    Duplex.Inv { s with conn := conn, calls := calls, messages := messages } where
  input := by
    rw [hin]
    exact h.input
  received := by
    rw [hin]
    exact h.received
  ready := hready
  closed := hclosed
  stream := hstream

/-- What an operation does that leaves the output alone. -/
theorem Duplex.Inv.inputBuffer (h : s.Inv) {b : Buffer} (hwf : b.WF)
    (received consumed : List Byte) (hreceived : received = consumed ++ b.readable) :
    Duplex.Inv { s with conn := { s.conn with inputBuffer := b }, received := received,
                        consumed := consumed } where
  input := hwf
  received := hreceived
  ready := fun hup => ⟨(h.ready hup).wf, (h.ready hup).writing_iff⟩
  closed := h.closed
  stream := h.stream

theorem handleClose_eq (hup : conn.state = .kConnected ∨ conn.state = .kDisconnecting) :
    conn.handleClose = .ok ({ conn with
      state := .kDisconnected, channel := conn.channel.disableAll }, [.updateChannel]) := by
  rw [handleClose, check_bind hup]
  rfl

theorem handleClose_error (hdown : ¬ (conn.state = .kConnected ∨ conn.state = .kDisconnecting)) :
    conn.handleClose = .error .handleCloseState := by
  rw [handleClose, check_error hdown]
  rfl

theorem Duplex.Inv.closed' (h : s.Inv) :
    Duplex.Inv { s with conn := { s.conn with
      state := .kDisconnected, channel := s.conn.channel.disableAll } } :=
  h.output { s.conn with state := .kDisconnected, channel := s.conn.channel.disableAll } rfl
    (fun hne => absurd rfl hne) (fun _ => Channel.isWriting_disableAll _) h.stream

/-- The states in which `handleClose` may be called. -/
def Open (conn : TcpConnection) : Prop :=
  conn.state = .kConnected ∨ conn.state = .kDisconnecting

/-- How `handleRead` ends: what was received is behind what was readable, and the user's
callback is invoked; or the buffer is as it was, and the connection is closed, which fails on
one that is closed already, or an error is reported. -/
theorem handleRead_spec (hwf : conn.inputBuffer.WF) (extrabuf : Vector Byte Buffer.extrabufSize)
    {r : ReadvResult} (hr : r.Legal conn.inputBuffer.iov) :
    (∃ b, conn.handleRead extrabuf r =
        .ok ({ conn with inputBuffer := b }, [], .messageCallback) ∧ Duplex.bytesOf r ≠ [] ∧
        b.WF ∧ b.readable = conn.inputBuffer.readable ++ Duplex.bytesOf r) ∨
      (∃ b, r = .received [] ∧ b.WF ∧ b.readable = conn.inputBuffer.readable ∧
        conn.handleRead extrabuf r = (do
          let (conn, effects) ← { conn with inputBuffer := b }.handleClose
          return (conn, effects, .handleClose))) ∨
      ∃ errno, r = .failed errno ∧
        conn.handleRead extrabuf r = .ok (conn, [], .handleError errno) := by
  cases r with
  | failed errno => exact Or.inr (Or.inr ⟨errno, rfl, rfl⟩)
  | received data =>
      obtain ⟨b, hok, hwf', hread⟩ := Buffer.readFd_received hwf 0 extrabuf hr
      by_cases hempty : data = []
      · subst hempty
        refine Or.inr (Or.inl ⟨b, rfl, hwf', ?_, ?_⟩)
        · rw [hread, List.append_nil]
        · rw [handleRead, hok]
          rfl
      · refine Or.inl ⟨b, ?_, hempty, hwf', hread⟩
        have hpos : (0 : Int) < data.length := by
          have := List.length_pos_of_ne_nil hempty
          omega
        rw [handleRead, hok]
        simp only [nested_ok, ok_bind]
        rw [if_pos hpos]
        rfl

/-- The assertion that may fail: that of `handleClose`, on a closed connection. -/
def ClosedTwice (conn : TcpConnection) (e : SendFault) : Prop :=
  ¬ Open conn ∧ e = .connection .handleCloseState

theorem Duplex.Inv.close (h : s.Inv) : Ends Duplex.Inv (ClosedTwice s.conn) s.close := by
  rw [Duplex.close]
  by_cases hup : Open s.conn
  · rw [handleClose_eq hup]
    exact h.closed'
  · rw [handleClose_error hup]
    exact ⟨hup, rfl⟩

theorem Duplex.Inv.read (h : s.Inv) (extrabuf : Vector Byte Buffer.extrabufSize)
    {r : ReadvResult} (hr : r.Legal s.conn.inputBuffer.iov) :
    Ends (fun p => Duplex.Inv p.1) (ClosedTwice s.conn) (s.read extrabuf r) := by
  rw [Duplex.read]
  rcases handleRead_spec h.input extrabuf hr with
    ⟨b, hok, -, hwf, hread⟩ | ⟨b, rfl, hwf, hread, hclose⟩ | ⟨errno, rfl, hok⟩
  · rw [hok]
    apply h.inputBuffer hwf
    rw [h.received, hread, List.append_assoc]
  · rw [hclose]
    have hinv : Duplex.Inv { s with conn := { s.conn with inputBuffer := b } } := by
      apply h.inputBuffer hwf
      rw [h.received, hread]
    by_cases hup : Open s.conn
    · rw [handleClose_eq (show Open { s.conn with inputBuffer := b } from hup)]
      show Duplex.Inv { s with conn := _, received := s.received ++ [] }
      rw [List.append_nil]
      exact hinv.closed'
    · rw [handleClose_error (show ¬ Open { s.conn with inputBuffer := b } from hup)]
      exact ⟨hup, rfl⟩
  · rw [hok]
    show Duplex.Inv { s with conn := s.conn, received := s.received ++ [] }
    rw [List.append_nil]
    exact h

/-- The user takes what the operation hands out, and it was in front. -/
theorem Duplex.Inv.take (h : s.Inv) {o : Buffer.Op} (ho : o.consumes = true)
    (hentry : o.entry s.conn.inputBuffer) :
    ∃ t, s.take o = .ok (o.result s.conn.inputBuffer.readable, t) ∧ t.Inv ∧
      t.conn = { s.conn with inputBuffer := t.conn.inputBuffer } ∧
      t.conn.inputBuffer.readable = o.effect s.conn.inputBuffer.readable ∧
      t.received = s.received ∧ t.calls = s.calls ∧ t.messages = s.messages := by
  obtain ⟨b, hok, hwf, hread, -⟩ := Buffer.Op.exec_spec h.input o hentry
  refine ⟨{ s with
    conn := { s.conn with inputBuffer := b }
    consumed := s.consumed ++ o.taken s.conn.inputBuffer.readable }, ?_, ?_, rfl, hread, rfl,
    rfl, rfl⟩
  · rw [Duplex.take, hok]
    rfl
  · apply h.inputBuffer hwf
    rw [h.received, hread, List.append_assoc, Buffer.Op.taken_append _ ho]

/-! ## Sending -/

variable {data : List Byte} {r : WriteResult} {es : List Effect}

theorem bufferRemaining_input {d : Direct} (h : conn.bufferRemaining data d = .ok (conn', es)) :
    conn'.inputBuffer = conn.inputBuffer := by
  obtain ⟨_, -, h⟩ := bind_eq_ok.mp h
  split at h
  · obtain ⟨out, -, h⟩ := bind_eq_ok.mp h
    simp only at h
    split at h
    · cases h
      rfl
    · cases h
      rfl
  · cases h
    rfl

theorem sendInLoop_input (h : conn.sendInLoop data r = .ok (conn', es)) :
    conn'.inputBuffer = conn.inputBuffer := by
  unfold sendInLoop at h
  split at h
  · cases h
    rfl
  · exact bufferRemaining_input h

/-- `handleWrite` changes neither the input buffer nor the state. -/
theorem handleWrite_same (h : conn.handleWrite r = .ok (conn', es)) :
    conn'.inputBuffer = conn.inputBuffer ∧ conn'.state = conn.state := by
  unfold handleWrite at h
  split at h
  · cases r with
    | accepted n =>
        simp only at h
        split at h
        · obtain ⟨out, -, h⟩ := bind_eq_ok.mp h
          split at h
          · cases h
            exact ⟨rfl, rfl⟩
          · cases h
            exact ⟨rfl, rfl⟩
        · cases h
          exact ⟨rfl, rfl⟩
    | failed errno =>
        cases h
        exact ⟨rfl, rfl⟩
  · cases h
    exact ⟨rfl, rfl⟩

/-- A call of `sendInLoop` on a connected connection, with the record of it. -/
theorem Duplex.Inv.sendInLoop (h : s.Inv) (hconn : s.conn.state = .kConnected)
    (data : List Byte) (k : Kernel) :
    ∃ r, s.conn.sendInLoop data (k.write data) = .ok r ∧ (s.sent r data).Inv ∧
      r.1.state = s.conn.state ∧ r.1.inputBuffer = s.conn.inputBuffer := by
  have hup : s.conn.state ≠ .kDisconnected := by
    rw [hconn]
    exact nofun
  obtain ⟨conn', effects, hok, hext, -⟩ := sendInLoop_spec (h.ready hup) hup data (k.legal data)
  refine ⟨(conn', effects), hok, ?_, hext.state_eq, sendInLoop_input hok⟩
  rw [Duplex.sent, if_pos hconn]
  apply h.output conn' (sendInLoop_input hok) (fun _ => hext.ready)
  · intro hd
    rw [hext.state_eq] at hd
    exact absurd hd hup
  · rw [acceptedBytes_append, List.append_assoc, hext.stream, ← List.append_assoc, h.stream,
      keptBytes_append]
    congr 1
    by_cases hf : (writeCalls effects).any WriteCall.fatal = true
    · simp [keptBytes, hf]
    · simp [keptBytes, hf]

/-- Outside of `kConnected` nothing is sent. -/
theorem sent_nothing (hconn : ¬ s.conn.state = .kConnected) (data : List Byte) :
    s.sent (s.conn, []) data = s := by
  rw [Duplex.sent, if_neg hconn, writeCalls_nil, List.append_nil]

theorem Duplex.Inv.send_connected (h : s.Inv) (hconn : s.conn.state = .kConnected)
    {message : StringPiece} {data : List Byte} (hbytes : message.bytes = some data)
    (k : Kernel) :
    ∃ r, s.send message k = .ok (s.sent r data) ∧ (s.sent r data).Inv ∧
      r.1.state = s.conn.state ∧ r.1.inputBuffer = s.conn.inputBuffer := by
  obtain ⟨r, hok, hinv, hsame⟩ := h.sendInLoop hconn data k
  have hup : s.conn.state ≠ .kDisconnected := by
    rw [hconn]
    exact nofun
  refine ⟨r, ?_, hinv, hsame⟩
  rw [Duplex.send, TcpConnection.send, if_pos hconn, sendPieceInLoop, if_neg hup, hbytes]
  simp only
  rw [hok]
  rfl

theorem send_not_connected (hconn : ¬ s.conn.state = .kConnected) (message : StringPiece)
    (k : Kernel) : s.send message k = .ok s := by
  rw [Duplex.send, TcpConnection.send, if_neg hconn]
  show Except.ok (s.sent (s.conn, []) _) = _
  rw [sent_nothing hconn]

theorem Duplex.Inv.send (h : s.Inv) {message : StringPiece} {data : List Byte}
    (hbytes : message.bytes = some data) (k : Kernel) :
    ∃ t, s.send message k = .ok t ∧ t.Inv := by
  by_cases hconn : s.conn.state = .kConnected
  · obtain ⟨r, hok, hinv, -⟩ := h.send_connected hconn hbytes k
    exact ⟨_, hok, hinv⟩
  · exact ⟨s, send_not_connected hconn message k, h⟩

theorem Duplex.Inv.sendInput (h : s.Inv) (k : Kernel) : ∃ t, s.sendInput k = .ok t ∧ t.Inv := by
  rw [Duplex.sendInput, sendBuffer]
  by_cases hconn : s.conn.state = .kConnected
  · obtain ⟨r, hok, hinv, hstate, hin⟩ := h.sendInLoop hconn s.conn.inputBuffer.readable k
    rw [if_pos hconn, if_pos hconn, hok]
    refine ⟨_, rfl, ?_⟩
    have hwf := Buffer.retrieveAll_wf h.input
    -- the message is the whole of the input buffer
    apply hinv.inputBuffer hwf s.received (s.consumed ++ s.conn.inputBuffer.readable)
    rw [Buffer.retrieveAll_readable, List.append_nil]
    exact h.received
  · rw [if_neg hconn, if_neg hconn]
    refine ⟨s, ?_, h⟩
    show Except.ok { s.sent (s.conn, []) s.conn.inputBuffer.readable with
      consumed := s.consumed } = _
    rw [sent_nothing hconn]

theorem Duplex.Inv.write (h : s.Inv) (k : Kernel) : ∃ t, s.write k = .ok t ∧ t.Inv := by
  rw [Duplex.write]
  by_cases hup : s.conn.state = .kDisconnected
  · -- the channel does not watch for `POLLOUT` any more
    have hidle : s.conn.handleWrite (k.write s.conn.outputBuffer.readable) =
        .ok (s.conn, []) := by
      rw [handleWrite, h.closed hup, if_neg Bool.false_ne_true]
      rfl
    rw [hidle]
    refine ⟨_, rfl, ?_⟩
    show Duplex.Inv { s with conn := s.conn, calls := s.calls ++ [] }
    rw [List.append_nil]
    exact h
  · obtain ⟨conn', effects, hok, hext⟩ :=
      handleWrite_spec (h.ready hup) (k.legal s.conn.outputBuffer.readable)
    rw [hok]
    refine ⟨_, rfl, ?_⟩
    apply h.output conn' (handleWrite_same hok).1 (fun _ => hext.ready)
    · intro hd
      rw [hext.state_eq] at hd
      exact absurd hd hup
    · rw [acceptedBytes_append, List.append_assoc, hext.stream, ← List.append_assoc, h.stream,
        List.append_nil]

/-! ## Runs -/

/-- An operation that only changes the read interest, or goes from connected to
disconnecting. -/
theorem Duplex.Inv.watch (h : s.Inv) (conn : TcpConnection)
    (hin : conn.inputBuffer = s.conn.inputBuffer)
    (hout : conn.outputBuffer = s.conn.outputBuffer)
    (hwriting : conn.channel.isWriting = s.conn.channel.isWriting)
    (hstate : conn.state = .kDisconnected ↔ s.conn.state = .kDisconnected) :
    Duplex.Inv { s with conn := conn } := by
  apply h.output conn hin
  · intro hup
    have hready := h.ready (hstate.not.mp hup)
    refine ⟨?_, ?_⟩
    · rw [hout]
      exact hready.wf
    · rw [hwriting, hout]
      exact hready.writing_iff
  · intro hd
    rw [hwriting]
    exact h.closed (hstate.mp hd)
  · rw [hout]
    exact h.stream

/-- How a step ends: it keeps both streams, or it closes the connection a second time. -/
theorem Duplex.Inv.step (h : s.Inv) {a : DuplexAction} (hf : Fair s a)
    {r : Except SendFault Duplex} (hr : s.step a = some r) :
    Ends Duplex.Inv (ClosedTwice s.conn) r := by
  cases a with
  | read extrabuf answer =>
      obtain rfl := Option.some.inj hr
      have hends := h.read extrabuf hf
      cases hread : s.read extrabuf answer with
      | error e =>
          rw [hread] at hends
          exact hends
      | ok p =>
          rw [hread] at hends
          exact hends
  | take o =>
      obtain rfl := Option.some.inj hr
      obtain ⟨t, hok, hinv, -⟩ := h.take hf.1 hf.2
      rw [hok]
      exact hinv
  | send message k =>
      obtain rfl := Option.some.inj hr
      obtain ⟨data, hbytes⟩ := Option.ne_none_iff_exists'.mp hf
      obtain ⟨t, hok, hinv⟩ := h.send hbytes k
      rw [hok]
      exact hinv
  | sendInput k =>
      obtain rfl := Option.some.inj hr
      obtain ⟨t, hok, hinv⟩ := h.sendInput k
      rw [hok]
      exact hinv
  | write k =>
      obtain rfl := Option.some.inj hr
      obtain ⟨t, hok, hinv⟩ := h.write k
      rw [hok]
      exact hinv
  | close =>
      obtain rfl := Option.some.inj hr
      exact h.close
  | shutdown =>
      obtain ⟨htest, rfl⟩ := of_guard hr
      have hconn : s.conn.state = .kConnected := of_decide_eq_true htest
      refine h.watch (s.conn.setState .kDisconnecting) rfl rfl rfl ⟨fun hd => (by cases hd), ?_⟩
      intro hd
      rw [hconn] at hd
      cases hd
  | startRead =>
      obtain rfl := Option.some.inj hr
      apply h.watch
      all_goals
        rw [startReadInLoop]
        split
      · rfl
      · rfl
      · rfl
      · rfl
      · exact Channel.isWriting_enableReading _
      · rfl
      · rfl
      · rfl
  | stopRead =>
      obtain rfl := Option.some.inj hr
      apply h.watch
      all_goals
        rw [stopReadInLoop]
        split
      · rfl
      · rfl
      · rfl
      · rfl
      · exact Channel.isWriting_disableReading _
      · rfl
      · rfl
      · rfl

theorem duplex_init (h : duplex.init s) : s.Inv := by
  obtain ⟨hreceived, hconsumed, hcalls, hmessages, sockfd, writeComplete, highWater, mark,
    effects, hest⟩ := h
  have hstate : (configured sockfd writeComplete highWater mark).state = .kConnecting := rfl
  rw [connectEstablished, check_bind hstate] at hest
  injection hest with hest
  injection hest with hconn _
  have hin : s.conn.inputBuffer.readable = [] := by
    rw [← hconn]
    exact Buffer.new_readable _
  have hout : s.conn.outputBuffer.readable = [] := by
    rw [← hconn]
    exact Buffer.new_readable _
  refine ⟨?_, ?_, ?_, ?_, ?_⟩
  · rw [← hconn]
    exact Buffer.new_wf _
  · rw [hreceived, hconsumed, hin]
    rfl
  · intro _
    refine ⟨?_, ?_⟩
    · rw [← hconn]
      exact Buffer.new_wf _
    · rw [hout, ← hconn]
      exact ⟨fun hw => (by cases hw), fun hne => absurd rfl hne⟩
  · intro hd
    rw [← hconn] at hd
    cases hd
  · rw [hcalls, hmessages, hout]
    rfl

theorem duplex_inv (h : duplex.Reachable Fair s) : s.Inv :=
  h.invariant (fun _ hs => duplex_init hs) fun _ _ _ hs hf hn => hs.step hf hn

/-- In every state a connection reaches, what was received is what the user has taken and then
what is in the input buffer; what the kernel has accepted and then what is in the output buffer
are the messages without those that were dropped; and no assertion fails but that of a second
`handleClose`. -/
theorem duplex_integrity (h : duplex.Reachable Fair s) :
    s.received = s.consumed ++ s.conn.inputBuffer.readable ∧
      acceptedBytes s.calls ++ s.conn.outputBuffer.readable = keptBytes s.messages ∧
      ∀ a e, Fair s a → duplex.Fails s a e → ClosedTwice s.conn e := by
  have hinv := duplex_inv h
  exact ⟨hinv.received, hinv.stream, fun a e hf hfails => hinv.step hf hfails⟩

/-- A kernel that takes one byte at a time. -/
def Kernel.stingy : Kernel where
  write data := .accepted (min 1 data.length)
  legal data := Nat.min_le_right 1 data.length

/-- A connection that has just come up. -/
def freshDuplex : Duplex := ⟨streamStart.conn, [], [], [], []⟩

/-- Five bytes arrive, and the user takes two of them. Of three that he sends the kernel takes
one, and one more when it can; then there is a hang-up. -/
def bothWays : List DuplexAction :=
  [.read (Vector.replicate _ 0) (.received [1, 2, 3, 4, 5]), .take (.retrieve 2),
    .send (StringPiece.ofString [7, 8, 9]) Kernel.stingy, .write Kernel.stingy, .close]

set_option maxRecDepth 20000 in
theorem duplex_integrity_sample : ∃ s : Duplex, duplex.Reachable Fair s ∧
    s.consumed = [1, 2] ∧ s.conn.inputBuffer.readable = [3, 4, 5] ∧
    s.received = s.consumed ++ s.conn.inputBuffer.readable ∧
    s.conn.state = .kDisconnected ∧ acceptedBytes s.calls = [7, 8] ∧
    acceptedBytes s.calls ++ s.conn.outputBuffer.readable = keptBytes s.messages := by
  have hinit : duplex.init freshDuplex :=
    ⟨rfl, rfl, rfl, rfl, 7, false, false, 0, _, rfl⟩
  have hrun : ∃ s, duplex.Run Fair freshDuplex bothWays s ∧ s.consumed = [1, 2] ∧
      s.conn.inputBuffer.readable = [3, 4, 5] ∧ s.conn.state = .kDisconnected ∧
      acceptedBytes s.calls = [7, 8] := by
    refine ⟨_, .cons ?_ rfl (.cons ?_ rfl (.cons ?_ rfl (.cons ?_ rfl (.cons ?_ rfl .nil)))),
      rfl, rfl, rfl, rfl⟩
    · exact (by decide : 5 ≤ freshDuplex.conn.inputBuffer.iov.sum)
    · exact ⟨rfl, by decide⟩
    · exact (by decide : (StringPiece.ofString [7, 8, 9]).bytes ≠ none)
    · trivial
    · trivial
  obtain ⟨s, hrun, hconsumed, hreadable, hstate, hcalls⟩ := hrun
  have hreach := (System.Reachable.of_init hinit).run hrun
  have hboth := duplex_integrity hreach
  exact ⟨s, hreach, hconsumed, hreadable, hboth.1, hstate, hcalls, hboth.2.1⟩

end TcpConnection

end Zing.Net
