import Zing.Net.Buffer
import Zing.Net.Channel

set_option autoImplicit false

/-! # `TcpConnection`

The functions of `TcpConnection.cpp` as functions on the members of the connection. What a
function does to the outside (system calls on the socket, functors queued on the loop, calls
of the poller) is returned as a list of effects, in the order of the source. What the kernel
answers to `write` is an argument.

The logging statements are left out; they are taken to leave `errno` as it is. A function
that invokes a callback of the user in its middle is cut there: `connectEstablished`,
`connectDestroyed` and `handleClose` stand for the part before the callback.
-/

namespace Zing.Net

open Zing.Lib

/-- Values of `errno`, with the Linux numbers of those the connection looks at. -/
abbrev Errno := Nat

def EWOULDBLOCK : Errno := 11
def EPIPE : Errno := 32
def ECONNRESET : Errno := 104

/-- What the kernel answers to `write`: it has accepted the first `n` bytes, or `-1` with an
`errno`. -/
inductive WriteResult
  | accepted (n : Nat)
  | failed (errno : Errno)
  deriving DecidableEq, Repr

/-- The kernel never accepts more than it was offered. -/
def WriteResult.Legal (len : Nat) : WriteResult → Prop
  | accepted n => n ≤ len
  | failed _ => True

instance (len : Nat) : (r : WriteResult) → Decidable (r.Legal len)
  | .accepted n => inferInstanceAs (Decidable (n ≤ len))
  | .failed _ => inferInstanceAs (Decidable True)

namespace TcpConnection

/-- `enum StateE` -/
inductive StateE
  | kDisconnected
  | kConnecting
  | kConnected
  | kDisconnecting
  deriving DecidableEq, Repr

/-- The assertions of `TcpConnection.cpp`, and those of the buffers it uses. -/
inductive Assertion
  | sendInLoopRemaining
  | connectEstablishedState
  | handleCloseState
  | dtorState
  | buffer (a : Buffer.Assertion)
  deriving DecidableEq, Repr

/-- The functors that the member functions post to the loop. `forceCloseTimer` is the
`addTimerInLoop` that `runAfter` posts for `forceCloseWithDelay`. -/
inductive Functor
  | sendInLoop (message : List Byte)
  | shutdownInLoop
  | forceCloseInLoop
  | forceCloseTimer
  | startReadInLoop
  | stopReadInLoop
  | connectDestroyed
  | writeCompleteCallback
  | highWaterMarkCallback (size : Nat)
  deriving DecidableEq, Repr

inductive Effect
  | write (data : List Byte) (r : WriteResult)
  | shutdownWrite
  | queueInLoop (f : Functor)
  | updateChannel
  deriving DecidableEq, Repr

end TcpConnection

open TcpConnection

/-- `class TcpConnection`; of the callbacks the connection asks about, whether they are
set. -/
structure TcpConnection where
  state : StateE
  reading : Bool
  channel : Channel
  writeCompleteCallback : Bool
  highWaterMarkCallback : Bool
  highWaterMark : Nat
  inputBuffer : Buffer
  outputBuffer : Buffer
  deriving DecidableEq, Repr

namespace TcpConnection

/-- The constructor. -/
def new (sockfd : Nat) : TcpConnection where
  state := .kConnecting
  reading := true
  channel := Channel.new sockfd
  writeCompleteCallback := false
  highWaterMarkCallback := false
  highWaterMark := 64 * 1024 * 1024
  inputBuffer := Buffer.new
  outputBuffer := Buffer.new

def setState (conn : TcpConnection) (s : StateE) : TcpConnection := { conn with state := s }

def setWriteCompleteCallback (conn : TcpConnection) : TcpConnection :=
  { conn with writeCompleteCallback := true }

def setHighWaterMarkCallback (conn : TcpConnection) (highWaterMark : Nat) : TcpConnection :=
  { conn with highWaterMarkCallback := true, highWaterMark := highWaterMark }

/-! ## Sending -/

/-- The local variables of `sendInLoop` after its first half. -/
structure Direct where
  nwrote : Nat
  remaining : Nat
  faultError : Bool
  effects : List Effect

/-- The condition of the direct write in `sendInLoop`. -/
def writesDirectly (conn : TcpConnection) : Bool :=
  !conn.channel.isWriting && conn.outputBuffer.readableBytes = 0

/-- Queue the write-complete callback, if there is one. -/
def writeCompleteEffects (conn : TcpConnection) : List Effect :=
  if conn.writeCompleteCallback then [.queueInLoop .writeCompleteCallback] else []

/-- The first half of `sendInLoop`: write directly, if nothing is waiting to be written. -/
def directWrite (conn : TcpConnection) (data : List Byte) (r : WriteResult) : Direct :=
  if conn.writesDirectly then
    match r with
    | .accepted n =>
        { nwrote := n
          remaining := data.length - n
          faultError := false
          effects := .write data r ::
            if data.length - n = 0 then conn.writeCompleteEffects else [] }
    | .failed errno =>
        { nwrote := 0
          remaining := data.length
          faultError := errno ≠ EWOULDBLOCK ∧ (errno = EPIPE ∨ errno = ECONNRESET)
          effects := [.write data r] }
  else
    { nwrote := 0, remaining := data.length, faultError := false, effects := [] }

/-- The call of the high-water callback in the second half of `sendInLoop`. -/
def highWaterEffects (conn : TcpConnection) (remaining : Nat) : List Effect :=
  let oldLen := conn.outputBuffer.readableBytes
  if oldLen + remaining ≥ conn.highWaterMark ∧ oldLen < conn.highWaterMark
      ∧ conn.highWaterMarkCallback then
    [.queueInLoop (.highWaterMarkCallback (oldLen + remaining))]
  else
    []

/-- The second half of `sendInLoop`: keep what was not written. -/
def bufferRemaining (conn : TcpConnection) (data : List Byte) (d : Direct) :
    Except Assertion (TcpConnection × List Effect) := do
  check (d.remaining ≤ data.length) .sendInLoopRemaining
  if !d.faultError && 0 < d.remaining then
    let out ← nested .buffer
      (conn.outputBuffer.append ((data.drop d.nwrote).take d.remaining))
    let high := conn.highWaterEffects d.remaining
    if !conn.channel.isWriting then
      return ({ conn with outputBuffer := out, channel := conn.channel.enableWriting },
        d.effects ++ high ++ [.updateChannel])
    else
      return ({ conn with outputBuffer := out }, d.effects ++ high)
  else
    return (conn, d.effects)

def sendInLoop (conn : TcpConnection) (data : List Byte) (r : WriteResult) :
    Except Assertion (TcpConnection × List Effect) :=
  if conn.state = .kDisconnected then
    return (conn, [])
  else
    conn.bufferRemaining data (conn.directWrite data r)

/-! ## Closing -/

def shutdownInLoop (conn : TcpConnection) : List Effect :=
  if !conn.channel.isWriting then [.shutdownWrite] else []

/-- The test of `shutdown()`. -/
def shutdownTest (conn : TcpConnection) : Bool := conn.state = .kConnected

/-- The test of `forceClose()`, `forceCloseWithDelay()` and `forceCloseInLoop()`. -/
def forceCloseTest (conn : TcpConnection) : Bool :=
  conn.state = .kConnected || conn.state = .kDisconnecting

/-- `handleClose` up to its callbacks. -/
def handleClose (conn : TcpConnection) : Except Assertion (TcpConnection × List Effect) := do
  check (conn.state = .kConnected ∨ conn.state = .kDisconnecting) .handleCloseState
  let conn := conn.setState .kDisconnected
  return ({ conn with channel := conn.channel.disableAll }, [.updateChannel])

/-- `connectEstablished` up to its callback. -/
def connectEstablished (conn : TcpConnection) :
    Except Assertion (TcpConnection × List Effect) := do
  check (conn.state = .kConnecting) .connectEstablishedState
  let conn := conn.setState .kConnected
  return ({ conn with channel := conn.channel.tie.enableReading }, [.updateChannel])

/-- The branch of `connectDestroyed` for a connected connection, up to its callback. -/
def connectDestroyedConnected (conn : TcpConnection) : TcpConnection × List Effect :=
  let conn := conn.setState .kDisconnected
  ({ conn with channel := conn.channel.disableAll }, [.updateChannel])

/-- The assertion of `~TcpConnection`. -/
def dtor (conn : TcpConnection) : Except Assertion Unit :=
  check (conn.state = .kDisconnected) .dtorState

/-! ## Reading and writing -/

def startReadInLoop (conn : TcpConnection) : TcpConnection × List Effect :=
  if !conn.reading || !conn.channel.isReading then
    ({ conn with channel := conn.channel.enableReading, reading := true }, [.updateChannel])
  else
    (conn, [])

def stopReadInLoop (conn : TcpConnection) : TcpConnection × List Effect :=
  if conn.reading || conn.channel.isReading then
    ({ conn with channel := conn.channel.disableReading, reading := false }, [.updateChannel])
  else
    (conn, [])

/-- `handleWrite` after the output buffer has been emptied. -/
def outputDrained (conn : TcpConnection) : TcpConnection × List Effect :=
  let conn := { conn with channel := conn.channel.disableWriting }
  (conn, .updateChannel :: conn.writeCompleteEffects
    ++ if conn.state = .kDisconnecting then conn.shutdownInLoop else [])

def handleWrite (conn : TcpConnection) (r : WriteResult) :
    Except Assertion (TcpConnection × List Effect) :=
  if conn.channel.isWriting then
    let call := Effect.write conn.outputBuffer.readable r
    match r with
    | .accepted n =>
        if 0 < n then do
          let out ← nested .buffer (conn.outputBuffer.retrieve n)
          let conn := { conn with outputBuffer := out }
          if out.readableBytes = 0 then
            let (conn, effects) := conn.outputDrained
            return (conn, call :: effects)
          else
            return (conn, [call])
        else
          return (conn, [call])
    | .failed _ => return (conn, [call])
  else
    return (conn, [])

end TcpConnection

end Zing.Net
