import Zing.Lib.Mail
import Zing.Net.TcpConnection
import Zing.Net.TcpServer

set_option autoImplicit false

/-! # A server among its loops

A `TcpServer` on its base loop, with its connections on any loops, the base loop among them.
A connection is closed on its own loop; `closeCallback_` posts the removal to the base loop,
which posts `connectDestroyed` back. `~TcpServer` runs on the base loop and posts
`connectDestroyed` for the connections that are still in `connections_`, one after the other.

A function of a loop is one step, but for `handleClose`, which calls the user before it calls
`closeCallback_`, and for `~TcpServer`. A loop that is in one of these runs no functor. The
pollers are left out, and so are the functors of the user, who may destroy the server wherever
his code is called on the base loop.
-/

namespace Zing.Net.ServerLoops

open Zing.Lib
open TcpConnection (StateE)

/-! ## State -/

/-- The functors that concern a connection, which is named by its place in the order of all
accepts. The last one is bound to the server, as `closeCallback_` is. -/
inductive Functor
  | connectEstablished (n : Nat)
  | connectDestroyed (n : Nat)
  | removeConnectionInLoop (n : Nat)
  deriving DecidableEq, Repr

/-- `~TcpServer` has the connections `todo` still to go through. -/
inductive Life
  | alive
  | destructing (todo : List Nat)
  | destroyed
  deriving DecidableEq, Repr

/-- A connection with the members that do not change. -/
structure Entry (L : Type) where
  name : List Char
  loop : L
  conn : TcpConnection

inductive Assertion
  | tcp (a : TcpConnection.Assertion)
  | server (a : TcpServer.Assertion)
  /-- `assert(isNoneEvent())` in `Channel::remove`. -/
  | noneEvent
  /-- The use of a `TcpServer` that has been destroyed. -/
  | deadServer
  deriving DecidableEq, Repr

/-- `closing` says which connection a loop is in `handleClose` of, in front of
`closeCallback_`. -/
structure World (L : Type) where
  server : TcpServer
  life : Life
  base : L
  accepted : Nat
  entry : Nat → Entry L
  mail : Mail L Functor
  closing : L → Option Nat

variable {L : Type}

namespace World

def conn (w : World L) (n : Nat) : TcpConnection := (w.entry n).conn

def loop (w : World L) (n : Nat) : L := (w.entry n).loop

def setConn (w : World L) (n : Nat) (conn : TcpConnection) : World L :=
  { w with entry := Function.update w.entry n { w.entry n with conn := conn } }

/-! ## Functions of the connection -/

def connectEstablished (w : World L) (n : Nat) : Except Assertion (World L) := do
  let r ← nested .tcp (w.conn n).connectEstablished
  .ok (w.setConn n r.1)

/-- The part of `connectDestroyed` in front of `channel_->remove()`. -/
def disconnected (conn : TcpConnection) : TcpConnection :=
  if conn.state = .kConnected then conn.connectDestroyedConnected.1 else conn

def connectDestroyed (w : World L) (n : Nat) : Except Assertion (World L) := do
  let conn := disconnected (w.conn n)
  -- `channel_->remove()`
  check (conn.channel.isNoneEvent = true) .noneEvent
  .ok (w.setConn n { conn with channel := { conn.channel with addedToLoop := false } })

/-- `handleClose` up to `closeCallback_` -/
def handleClose (w : World L) (n : Nat) : Except Assertion (World L) := do
  let r ← nested .tcp (w.conn n).handleClose
  .ok (w.setConn n r.1)

/-! ## Functions of the server -/

variable [DecidableEq L]

def removeConnectionInLoop (w : World L) (n : Nat) : Except Assertion (World L) := do
  check (w.life ≠ .destroyed) .deadServer
  let server ← nested .server (w.server.removeConnectionInLoop ⟨n, (w.entry n).name⟩)
  .ok { w with server := server, mail := w.mail.post (w.loop n) (.connectDestroyed n) }

def runFunctor (w : World L) : Functor → Except Assertion (World L)
  | .connectEstablished n => w.connectEstablished n
  | .connectDestroyed n => w.connectDestroyed n
  | .removeConnectionInLoop n => w.removeConnectionInLoop n

/-- `l->runInLoop(f)`, called on the thread of the loop `here`. -/
def runInLoop (w : World L) (here l : L) (f : Functor) : Except Assertion (World L) :=
  -- on the thread of the loop the functor is called at once
  if here = l then { w with mail := w.mail.direct f }.runFunctor f
  else .ok { w with mail := w.mail.post l f }

/-- `newConnection` up to its `runInLoop` -/
def newConnection (w : World L) (l : L) (sockfd : Nat) : World L :=
  let r := w.server.newConnection w.accepted
  { w with
    server := r.1
    accepted := w.accepted + 1
    entry := Function.update w.entry w.accepted ⟨r.2.name, l, TcpConnection.new sockfd⟩ }

/-- `closeCallback_`, which is `TcpServer::removeConnection`, on the loop `l`. -/
def closeCallback (w : World L) (l : L) (n : Nat) : Except Assertion (World L) := do
  check (w.life ≠ .destroyed) .deadServer
  -- `this` is the server, which the functor does not own
  w.runInLoop l w.base (.removeConnectionInLoop n)

/-- The connections that `~TcpServer` goes through. -/
def items (w : World L) : List Nat := w.server.connections.entries.map fun e => e.2.ordinal

/-- The base loop is in `~TcpServer`. -/
def inDtor (w : World L) : Bool :=
  match w.life with
  | .destructing _ => true
  | _ => false

/-- The loop is between two functors or handlers. -/
def between (w : World L) (l : L) : Bool :=
  (w.closing l).isNone && !(decide (l = w.base) && w.inDtor)

end World

/-! ## Runs -/

inductive Action (L : Type)
  | accept (l : L) (sockfd : Nat)
  | shutdown (n : Nat)
  | handleClose (n : Nat)
  | closeCallback (l : L)
  | run (l : L)
  | destroyServer
  | destroyItem (n : Nat)
  | serverDestroyed

variable [DecidableEq L]

def step (w : World L) : Action L → Option (Except Assertion (World L))
  | .accept l sockfd =>
      if w.between w.base = true ∧ w.life = .alive then
        some ((w.newConnection l sockfd).runInLoop w.base l (.connectEstablished w.accepted))
      else none
  | .shutdown n =>
      if n < w.accepted ∧ (w.conn n).shutdownTest = true then
        some (.ok (w.setConn n ((w.conn n).setState .kDisconnecting)))
      else none
  | .handleClose n =>
      -- end of file or a hang-up, of which there may be two in a round, or a `forceClose`; the
      -- channel reports nothing before `connectEstablished`
      if n < w.accepted ∧ w.between (w.loop n) = true ∧ (w.conn n).state ≠ .kConnecting then
        some ({ w with
          closing := Function.update w.closing (w.loop n) (some n) }.handleClose n)
      else none
  | .closeCallback l =>
      match w.closing l with
      | some n =>
          -- the base loop goes on in `~TcpServer` first
          if l = w.base ∧ w.inDtor = true then none
          else some ({ w with closing := Function.update w.closing l none }.closeCallback l n)
      | none => none
  | .run l =>
      match w.mail.queue l with
      | f :: rest =>
          if w.between l = true then
            some ({ w with mail := w.mail.next l f rest }.runFunctor f)
          else none
      | [] => none
  | .destroyServer =>
      match w.life with
      -- `connections_` keeps its nodes, each `reset()` as its turn comes
      | .alive => some (.ok { w with life := .destructing w.items })
      | _ => none
  | .destroyItem n =>
      match w.life with
      | .destructing todo =>
          -- the map has its own order, so any of those that are left may be next
          if n ∈ todo then
            some ({ w with life := .destructing (todo.erase n) }.runInLoop w.base (w.loop n)
              (.connectDestroyed n))
          else none
      | _ => none
  | .serverDestroyed =>
      match w.life with
      | .destructing [] => some (.ok { w with life := .destroyed })
      | _ => none

/-- A server that has not accepted a connection. -/
structure Start (w : World L) : Prop where
  connections : w.server.connections = ∅
  life : w.life = .alive
  accepted : w.accepted = 0
  log : w.mail.log = []
  queue : ∀ l, w.mail.queue l = []
  closing : ∀ l, w.closing l = none

/-- The runs of one server. -/
def runs : System (World L) (Action L) Assertion where
  init := Start
  step := step

/-! ## What is promised, and when -/

/-- The functors of one connection. -/
def Functor.isOf (n : Nat) (f : Functor) : Bool :=
  decide (f = .connectEstablished n ∨ f = .connectDestroyed n)

/-- `connectEstablished` of an accepted connection is called once, or is posted once and still
to be called, and `connectDestroyed` is called at most once and behind it; nothing that is bound
to the server is called when that has been destroyed. -/
structure World.Orderly (w : World L) : Prop where
  established : ∀ n < w.accepted, w.mail.log.count (.connectEstablished n) +
    (w.mail.queue (w.loop n)).count (.connectEstablished n) = 1
  order : ∀ pre n post, w.mail.log = pre ++ .connectDestroyed n :: post →
    .connectEstablished n ∈ pre
  once : ∀ n, w.mail.log.count (.connectDestroyed n) ≤ 1
  server : ∀ a, ¬ runs.Fails w a .deadServer

/-- A functor or a close callback that is bound to the server is due. -/
def World.Bound (w : World L) : Prop :=
  (∃ n, .removeConnectionInLoop n ∈ w.mail.queue w.base) ∨ ∃ l n, w.closing l = some n

/-- `handleClose` of a connection that has been closed, or destroyed. -/
def World.Again (w : World L) (a : Action L) : Prop :=
  ∃ n, a = .handleClose n ∧ (w.conn n).state = .kDisconnected

/-- `~TcpServer` begins when nothing that is bound to the server is due, and from then on no
connection is closed that `~TcpServer` destroys. -/
structure Keeps (w : World L) (a : Action L) : Prop where
  destroyServer : a = .destroyServer → ¬ w.Bound
  handleClose : ∀ n, a = .handleClose n → w.life = .alive

end Zing.Net.ServerLoops
