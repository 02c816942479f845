import Zing.Net.BufferShrink
import Zing.Net.TcpStream

set_option autoImplicit false

/-! # The two paths of `send(Buffer*)`

On the loop thread `send` passes the bytes of the buffer straight to `sendInLoop`, as a pointer
and a `size_t`. On another thread it moves them into a string, and the functor that it queues
comes back to `sendInLoop` through a `StringPiece`, whose length is an `int`. Up to `INT_MAX`
bytes the two do the same (`sameEffect_of_short`). Of a longer message the functor delivers a
part, or it reads behind the string; only where the direct path drops the whole message too can
this go unnoticed (`short_of_sameEffect`).
-/

namespace Zing.Net.TcpConnection

open Zing.Lib
open Zing.Base (StringPiece maxSize)

/-- What can go wrong: an assertion, or a read behind the end of a string. -/
inductive SendFault
  | connection (a : Assertion)
  | outOfRange
  deriving DecidableEq, Repr

/-- The kernel at some moment: its answer to a `write` on the socket. -/
structure Kernel where
  write : List Byte → WriteResult
  legal : ∀ data, (write data).Legal data.length

/-! ## The functions -/

/-- `sendInLoop(const StringPiece& message)` -/
def sendPieceInLoop (conn : TcpConnection) (message : StringPiece) (k : Kernel) :
    Except SendFault (TcpConnection × List Effect) :=
  if conn.state = .kDisconnected then
    return (conn, [])
  else
    match message.bytes with
    | none => .error .outOfRange
    | some data => nested .connection (conn.sendInLoop data (k.write data))

/-- `send(Buffer*)` on the loop thread: the connection, the effects and the caller's buffer. -/
def sendBuffer (conn : TcpConnection) (buf : Buffer) (k : Kernel) :
    Except SendFault ((TcpConnection × List Effect) × Buffer) :=
  if conn.state = .kConnected then do
    let r ← nested .connection (conn.sendInLoop buf.readable (k.write buf.readable))
    return (r, buf.retrieveAll)
  else
    return ((conn, []), buf)

/-- `send(Buffer*)` on another thread: the functor that it queues, and the caller's buffer. -/
def sendBufferOutside (conn : TcpConnection) (buf : Buffer) :
    Except SendFault (Option Functor × Buffer) :=
  if conn.state = .kConnected then do
    let r ← nested (.connection ∘ .buffer) buf.retrieveAllAsString
    return (some (.sendInLoop r.1), r.2)
  else
    return (none, buf)

/-- The functor runs on the loop thread: the string that is bound to it becomes a piece. -/
def runSend (conn : TcpConnection) (message : List Byte) (k : Kernel) :
    Except SendFault (TcpConnection × List Effect) :=
  conn.sendPieceInLoop (StringPiece.ofString message) k

/-! ## The effect of a call -/

/-- What can be seen of a call: the bytes written to the socket, the output buffer, the write
interest, and the functors queued. -/
structure Outcome where
  written : List Byte
  output : List Byte
  writing : Bool
  queued : List Functor
  deriving DecidableEq, Repr

def outcome (r : TcpConnection × List Effect) : Outcome where
  written := acceptedBytes (writeCalls r.2)
  output := r.1.outputBuffer.readable
  writing := r.1.channel.isWriting
  queued := r.2.filterMap fun
    | .queueInLoop f => some f
    | _ => none

/-- The effect of sending on the loop thread. -/
def directEffect (conn : TcpConnection) (buf : Buffer) (k : Kernel) :
    Except SendFault Outcome := do
  let r ← conn.sendBuffer buf k
  return outcome r.1

/-- The effect of sending on another thread, when the state is `conn₀`, and of the functor that
runs when the connection is `conn`. -/
def queuedEffect (conn₀ conn : TcpConnection) (buf : Buffer) (k : Kernel) :
    Except SendFault Outcome := do
  let r ← conn₀.sendBufferOutside buf
  match r.1 with
  | some (.sendInLoop message) => do
      let r ← conn.runSend message k
      return outcome r
  | _ => return outcome (conn, [])

/-- The two paths have the same effect. -/
def SameEffect (conn₀ conn : TcpConnection) (buf : Buffer) (k : Kernel) : Prop :=
  conn.directEffect buf k = queuedEffect conn₀ conn buf k

/-- On both paths the caller's buffer is emptied if the message was accepted, and else left. -/
def Emptied (conn : TcpConnection) (buf : Buffer) (k : Kernel) : Prop :=
  (∀ r buf', conn.sendBuffer buf k = .ok (r, buf') →
    buf' = if conn.state = .kConnected then buf.retrieveAll else buf) ∧
  (∀ f buf', conn.sendBufferOutside buf = .ok (f, buf') →
    buf' = if conn.state = .kConnected then buf.retrieveAll else buf)

variable {conn₀ conn : TcpConnection} {buf : Buffer} {k : Kernel}

/-! ## Both paths -/

theorem retrieveAllAsString_eq (h : buf.WF) :
    buf.retrieveAllAsString = .ok (buf.readable, buf.retrieveAll) := by
  rw [Buffer.retrieveAllAsString, Buffer.retrieveAsString, check_bind (Nat.le_refl _)]
  have hend : buf.readerIndex + buf.readableBytes = buf.writerIndex :=
    Nat.add_sub_cancel' h.reader_le
  rw [hend, Buffer.retrieve, check_bind (Nat.le_refl _), if_neg (lt_irrefl _)]
  rfl

theorem emptied (h : buf.WF) : Emptied conn buf k := by
  constructor
  · intro r buf' hok
    rw [sendBuffer] at hok
    split at hok
    · case isTrue hs =>
        obtain ⟨r', -, hr⟩ := bind_eq_ok.mp hok
        cases hr
        rw [if_pos hs]
    · case isFalse hs =>
        cases hok
        rw [if_neg hs]
  · intro f buf' hok
    rw [sendBufferOutside] at hok
    split at hok
    · case isTrue hs =>
        rw [retrieveAllAsString_eq h] at hok
        cases hok
        rw [if_pos hs]
    · case isFalse hs =>
        cases hok
        rw [if_neg hs]

theorem directEffect_eq (hconn : conn.state = .kConnected) :
    conn.directEffect buf k = (do
      let r ← nested .connection (conn.sendInLoop buf.readable (k.write buf.readable))
      return outcome r) := by
  rw [directEffect, sendBuffer, if_pos hconn]
  cases nested SendFault.connection (conn.sendInLoop buf.readable (k.write buf.readable)) <;> rfl

theorem queuedEffect_eq (h : buf.WF) (h₀ : conn₀.state = .kConnected) :
    queuedEffect conn₀ conn buf k = (do
      let r ← conn.runSend buf.readable k
      return outcome r) := by
  rw [queuedEffect, sendBufferOutside, if_pos h₀, retrieveAllAsString_eq h]
  rfl

theorem runSend_eq (hconn : conn.state = .kConnected) {message data : List Byte}
    (hdata : (StringPiece.ofString message).bytes = some data) :
    conn.runSend message k = nested .connection (conn.sendInLoop data (k.write data)) := by
  have hup : conn.state ≠ .kDisconnected := by
    rw [hconn]
    decide
  rw [runSend, sendPieceInLoop, if_neg hup, hdata]

theorem sameEffect_of_short (h : buf.WF) (h₀ : conn₀.state = .kConnected)
    (hconn : conn.state = .kConnected) (hshort : buf.readableBytes < 2 ^ 31) :
    SameEffect conn₀ conn buf k := by
  have hlen : buf.readable.length < 2 ^ 31 := by
    rw [Buffer.length_readable h]
    exact hshort
  rw [SameEffect, directEffect_eq hconn, queuedEffect_eq h h₀,
    runSend_eq hconn (StringPiece.bytes_ofString hlen)]

/-! ## A message that is too long -/

/-- A message is dropped where the direct write fails with a fatal error. -/
theorem sendInLoop_dropped (h : conn.Ready) {data : List Byte} {r : WriteResult}
    (hr : r.Legal data.length) (hup : conn.state ≠ .kDisconnected)
    {conn' : TcpConnection} {effects : List Effect}
    (hok : conn.sendInLoop data r = .ok (conn', effects)) :
    (writeCalls effects).any WriteCall.fatal = (conn.directWrite data r).faultError := by
  have hd := directWrite_splits h data hr
  rw [sendInLoop, if_neg hup] at hok
  by_cases hf : (conn.directWrite data r).faultError = true
  · have hle : (conn.directWrite data r).remaining ≤ data.length := by
      have := hd.lengths
      omega
    rw [bufferRemaining, check_bind hle, if_neg (by simp [hf])] at hok
    cases hok
    exact hd.fault_eq.symm
  · obtain ⟨conn'', effects', hok', -, hcalls⟩ := bufferRemaining_spec h hd (by simpa using hf)
    rw [hok] at hok'
    cases hok'
    rw [hcalls]
    exact hd.fault_eq.symm

/-- What is written and what is kept are, behind the old output, the message or nothing. -/
theorem sendInLoop_outcome (h : conn.Ready) (hup : conn.state ≠ .kDisconnected)
    (data : List Byte) {r : WriteResult} (hr : r.Legal data.length) :
    ∃ res, conn.sendInLoop data r = .ok res ∧
      (outcome res).written ++ (outcome res).output = conn.outputBuffer.readable ++
        if (conn.directWrite data r).faultError = true then [] else data := by
  obtain ⟨conn', effects, hok, hext, -⟩ := sendInLoop_spec h hup data hr
  rw [sendInLoop_dropped h hr hup hok] at hext
  exact ⟨_, hok, hext.stream⟩

/-- Where the direct path does not drop the message, both paths have the same effect only if
the message is not too long. -/
theorem short_of_sameEffect (h : buf.WF) (hmax : buf.buffer.length ≤ maxSize)
    (h₀ : conn₀.state = .kConnected) (hconn : conn.state = .kConnected) (hready : conn.Ready)
    (hkept : (conn.directWrite buf.readable (k.write buf.readable)).faultError = false)
    (hsame : SameEffect conn₀ conn buf k) : buf.readableBytes < 2 ^ 31 := by
  by_contra hlong
  have hlen := Buffer.length_readable h
  have hle : buf.readableBytes ≤ maxSize := by
    have hw := h.writer_le
    rw [Buffer.readableBytes]
    omega
  have hup : conn.state ≠ .kDisconnected := by
    rw [hconn]
    decide
  obtain ⟨res, hok, hdirect⟩ := sendInLoop_outcome hready hup buf.readable (k.legal _)
  rw [if_neg (by simp [hkept])] at hdirect
  rw [SameEffect, directEffect_eq hconn, queuedEffect_eq h h₀, hok] at hsame
  have hbytes : 2 ^ 31 ≤ buf.readable.length := by omega
  rcases StringPiece.bytes_of_long hbytes (by omega) with hnone | ⟨n, hn, hsome⟩
  · -- the functor reads behind its string
    rw [runSend, sendPieceInLoop, if_neg hup, hnone] at hsame
    cases hsame
  · obtain ⟨res', hok', hqueued⟩ :=
      sendInLoop_outcome hready hup (buf.readable.take n) (k.legal _)
    rw [runSend_eq hconn hsome, hok'] at hsame
    have heq : outcome res = outcome res' := Except.ok.inj hsame
    rw [← heq, hdirect] at hqueued
    have htail := List.append_cancel_left hqueued
    have hlength := congrArg List.length htail
    split at hlength
    · rw [List.length_nil] at hlength
      omega
    · rw [List.length_take] at hlength
      omega

/-- The kernel takes all that it is offered. -/
def Kernel.eager : Kernel where
  write data := .accepted data.length
  legal data := Nat.le_refl data.length

/-- A connection that has just come up. -/
def justUp : TcpConnection :=
  { new 7 with state := .kConnected, channel := (Channel.new 7).tie.enableReading }

theorem justUp_ready : justUp.Ready := by
  have hinit : stream.init ⟨justUp, [], []⟩ :=
    ⟨rfl, rfl, 7, false, false, 64 * 1024 * 1024, [.updateChannel], rfl⟩
  exact (stream_init hinit).ready

theorem sameEffect_iff (h : buf.WF) (hmax : buf.buffer.length ≤ maxSize) :
    (∀ conn₀ conn k, conn₀.state = .kConnected → conn.state = .kConnected →
      SameEffect conn₀ conn buf k) ↔ buf.readableBytes < 2 ^ 31 := by
  constructor
  · intro hall
    exact short_of_sameEffect h hmax rfl rfl justUp_ready rfl
      (hall justUp justUp Kernel.eager rfl rfl)
  · intro hshort conn₀ conn k h₀ hconn
    exact sameEffect_of_short h h₀ hconn hshort

/-- Sending a buffer from another thread has the effect of sending it on the loop thread when
the functor runs, in all states and at every moment, exactly if the buffer has at most `INT_MAX`
bytes; a longer one has the same effect at no moment at which the loop thread would not drop it.
The buffer is emptied if the message is accepted, on both paths and at any length. -/
theorem send_buffer_paths_iff (buf : Buffer) (h : buf.WF) (hmax : buf.buffer.length ≤ maxSize) :
    ((∀ conn₀ conn k, conn₀.state = .kConnected → conn.state = .kConnected →
        SameEffect conn₀ conn buf k ∧ Emptied conn₀ buf k ∧ Emptied conn buf k) ↔
      buf.readableBytes < 2 ^ 31) ∧
    (∀ conn₀ conn k, conn₀.state = .kConnected → conn.state = .kConnected → conn.Ready →
      (conn.directWrite buf.readable (k.write buf.readable)).faultError = false →
      SameEffect conn₀ conn buf k → buf.readableBytes < 2 ^ 31) ∧
    ∀ conn k, Emptied conn buf k := by
  refine ⟨?_, ?_, fun conn k => emptied h⟩
  · rw [← sameEffect_iff h hmax]
    constructor
    · exact fun hall conn₀ conn k h₀ hconn => (hall conn₀ conn k h₀ hconn).1
    · exact fun hall conn₀ conn k h₀ hconn => ⟨hall conn₀ conn k h₀ hconn, emptied h, emptied h⟩
  · intro conn₀ conn k h₀ hconn hready hkept hsame
    exact short_of_sameEffect h hmax h₀ hconn hready hkept hsame

theorem send_buffer_paths_sample :
    SameEffect justUp justUp ⟨[0, 0, 0, 0, 0, 0, 0, 0, 1, 2, 3], 8, 11⟩ Kernel.eager :=
  ((send_buffer_paths_iff ⟨[0, 0, 0, 0, 0, 0, 0, 0, 1, 2, 3], 8, 11⟩
    ⟨by decide, by decide, by decide⟩ (by decide)).1.mpr (by decide) justUp justUp Kernel.eager
    rfl rfl).1

/-- Two gigabytes from another thread are read behind their string. -/
theorem send_buffer_paths_differ : ¬ ∀ (buf : Buffer), buf.WF → buf.buffer.length ≤ maxSize →
    ∀ conn₀ conn k, conn₀.state = .kConnected → conn.state = .kConnected →
      SameEffect conn₀ conn buf k := by
  intro hall
  obtain ⟨hwf, hmax, hreadable⟩ := Buffer.twoGigabytes_wf
  have hshort := (sameEffect_iff hwf hmax).mp (hall _ hwf hmax)
  omega

end Zing.Net.TcpConnection
