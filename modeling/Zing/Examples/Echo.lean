import Zing.Net.TcpDuplex

set_option autoImplicit false

/-! # The echo server

`EchoServer` of `examples/echo`, on one of its connections: the message callback takes all of
the input buffer and sends it back. `echo_faithful` is the purpose of the server: what it has
sent, and what is still to be sent, is what it has received.

A `read` or `readv` of Linux transfers at most `maxRwCount` bytes. This keeps the size of a
message within the `int` that `send` passes it through.
-/

namespace Zing.Examples.EchoServer

open Zing.Lib
open Zing.Net
open TcpConnection
open Zing.Base (StringPiece)

/-- `MAX_RW_COUNT` of Linux. -/
def maxRwCount : Nat := 0x7ffff000

/-- `onMessage` -/
def onMessage (s : Duplex) (k : Kernel) : Except SendFault Duplex := do
  let r ← s.take (.retrieveAsString s.conn.inputBuffer.readableBytes)
  r.2.send (StringPiece.ofString r.1) k

/-- What happens to a connection of the server. -/
inductive Action
  | read (extrabuf : Vector Byte Buffer.extrabufSize) (r : ReadvResult) (k : Kernel)
  | write (k : Kernel)
  | close

/-- `handleRead`, with the message callback. -/
def handleRead (s : Duplex) (extrabuf : Vector Byte Buffer.extrabufSize) (r : ReadvResult)
    (k : Kernel) : Except SendFault Duplex := do
  let p ← s.read extrabuf r
  if p.2 = .messageCallback then onMessage p.1 k else return p.1

def step (s : Duplex) : Action → Option (Except SendFault Duplex)
  | .read extrabuf r k => some (handleRead s extrabuf r k)
  | .write k => some (s.write k)
  | .close => some s.close

/-- A connection of the server, from the moment it is up. -/
def echo : System Duplex Action SendFault where
  init := duplex.init
  step := step

/-- `readv` receives no more than there is room for, and no more than the system allows. -/
def Fair (s : Duplex) : Action → Prop
  | .read _ r _ => r.Legal s.conn.inputBuffer.iov ∧
      (Duplex.bytesOf r).length ≤ maxRwCount
  | _ => True

/-- The messages, one after the other. -/
def sentBytes (s : Duplex) : List Byte := s.messages.flatMap Message.data

/-- The invariant of the server: between two events its input buffer is empty, and while it is
connected it has passed on everything. -/
structure Inv (s : Duplex) : Prop where
  duplex : s.Inv
  state : s.conn.state = .kConnected ∨ s.conn.state = .kDisconnected
  empty : s.conn.inputBuffer.readable = []
  echoed : s.conn.state = .kConnected → sentBytes s = s.received
  behind : sentBytes s <+: s.received
  faithful : s.calls.any WriteCall.fatal = false → s.messages.any Message.dropped = false

variable {s t : Duplex}

/-- A message of this length gets through the `int` of `StringPiece`. -/
theorem bytes_ofString {data : List Byte} (h : data.length ≤ maxRwCount) :
    (StringPiece.ofString data).bytes = some data := by
  apply StringPiece.bytes_ofString
  rw [maxRwCount] at h
  omega

theorem sentBytes_snoc {messages : List Message} {m : Message} :
    (messages ++ [m]).flatMap Message.data = messages.flatMap Message.data ++ m.data := by
  rw [List.flatMap_append, List.flatMap_singleton]

/-- The callback on `data`, which was received on an empty buffer. -/
theorem onMessage_spec (hinv : t.Inv) {data : List Byte}
    (hread : t.conn.inputBuffer.readable = data)
    (hlen : data.length ≤ maxRwCount)
    (hstate : t.conn.state = .kConnected ∨ t.conn.state = .kDisconnected)
    (hechoed : t.conn.state = .kConnected → t.received = sentBytes t ++ data)
    (hbehind : sentBytes t <+: t.received)
    (hfaithful : t.calls.any WriteCall.fatal = false → t.messages.any Message.dropped = false)
    (k : Kernel) : ∃ u, onMessage t k = .ok u ∧ Inv u := by
  have hall : t.conn.inputBuffer.readableBytes = data.length := by
    rw [← hread, Buffer.length_readable hinv.input]
  obtain ⟨u, htake, hu, hconn, hleft, hreceived, hcalls, hmessages⟩ :=
    hinv.take (o := .retrieveAsString t.conn.inputBuffer.readableBytes) rfl (Nat.le_refl _)
  have hmsg : Buffer.Op.result t.conn.inputBuffer.readable
      (.retrieveAsString t.conn.inputBuffer.readableBytes) = data := by
    show t.conn.inputBuffer.readable.take _ = data
    rw [hread, hall, List.take_length]
  have hempty : u.conn.inputBuffer.readable = [] := by
    rw [hleft]
    show t.conn.inputBuffer.readable.drop _ = []
    rw [hread, hall, List.drop_length]
  have hsent : sentBytes u = sentBytes t := by rw [sentBytes, hmessages, sentBytes]
  have hstate' : u.conn.state = t.conn.state := by rw [hconn]
  rw [onMessage, htake, ok_bind, hmsg]
  by_cases hc : u.conn.state = .kConnected
  · obtain ⟨r, hok, hinv', hr, hin⟩ := hu.send_connected hc (bytes_ofString hlen) k
    refine ⟨_, hok, ?_⟩
    -- the message makes up for what was received
    have hpassed : sentBytes (u.sent r data) = u.received := by
      rw [sentBytes, Duplex.sent, if_pos hc]
      simp only
      rw [sentBytes_snoc]
      show sentBytes u ++ data = u.received
      rw [hsent, hreceived, hechoed (hstate' ▸ hc)]
    refine { duplex := hinv', state := Or.inl (hr.trans hc), empty := ?_,
             echoed := fun _ => hpassed, behind := ?_, faithful := ?_ }
    · show r.1.inputBuffer.readable = []
      rw [hin]
      exact hempty
    · rw [hpassed]
      exact List.prefix_refl _
    · intro hfatal
      have hfatal : (u.calls ++ writeCalls r.2).any WriteCall.fatal = false := hfatal
      rw [List.any_append, Bool.or_eq_false_iff] at hfatal
      rw [Duplex.sent, if_pos hc]
      show (u.messages ++ [_]).any Message.dropped = false
      rw [List.any_append, Bool.or_eq_false_iff]
      refine ⟨?_, ?_⟩
      · rw [hmessages]
        exact hfaithful (hcalls ▸ hfatal.1)
      · simp [hfatal.2]
  · refine ⟨u, send_not_connected hc _ k, ?_⟩
    refine { duplex := hu, state := hstate'.symm ▸ hstate, empty := hempty,
             echoed := fun hc' => absurd hc' hc, behind := ?_, faithful := ?_ }
    · rw [hsent, hreceived]
      exact hbehind
    · rw [hcalls, hmessages]
      exact hfaithful

/-- Behind `handleClose` nothing is sent any more. -/
theorem Inv.close (h : Inv s) : Ends Inv (ClosedTwice s.conn) s.close := by
  rw [Duplex.close]
  by_cases hup : Open s.conn
  · rw [handleClose_eq hup]
    exact ⟨h.duplex.closed', Or.inr rfl, h.empty, fun hc => (by cases hc), h.behind, h.faithful⟩
  · rw [handleClose_error hup]
    exact ⟨hup, rfl⟩

theorem Inv.read (h : Inv s) (extrabuf : Vector Byte Buffer.extrabufSize) {r : ReadvResult}
    (hr : r.Legal s.conn.inputBuffer.iov) (hlen : (Duplex.bytesOf r).length ≤ maxRwCount)
    (k : Kernel) : Ends Inv (ClosedTwice s.conn) (handleRead s extrabuf r k) := by
  rw [handleRead, Duplex.read]
  rcases handleRead_spec h.duplex.input extrabuf hr with
    ⟨b, hok, -, hwf, hread⟩ | ⟨b, rfl, hwf, hread, hclose⟩ | ⟨errno, rfl, hok⟩
  · rw [hok]
    rw [h.empty, List.nil_append] at hread
    have hinv : Duplex.Inv { s with
        conn := { s.conn with inputBuffer := b }
        received := s.received ++ Duplex.bytesOf r } := by
      apply h.duplex.inputBuffer hwf
      rw [h.duplex.received, h.empty, List.append_nil, hread]
    have hechoed : s.conn.state = .kConnected →
        s.received ++ Duplex.bytesOf r = sentBytes s ++ Duplex.bytesOf r := by
      intro hc
      rw [h.echoed hc]
    obtain ⟨u, hu, hdone⟩ := onMessage_spec hinv hread hlen h.state hechoed
      (h.behind.trans (List.prefix_append _ _)) h.faithful k
    show Ends Inv _ (onMessage _ k)
    rw [hu]
    exact hdone
  · rw [hclose]
    rw [h.empty] at hread
    by_cases hup : Open s.conn
    · rw [handleClose_eq (show Open { s.conn with inputBuffer := b } from hup)]
      have hinv : Duplex.Inv { s with conn := { s.conn with inputBuffer := b } } := by
        apply h.duplex.inputBuffer hwf
        rw [h.duplex.received, h.empty, hread]
      show Inv { s with conn := _, received := s.received ++ [] }
      rw [List.append_nil]
      exact ⟨hinv.closed', Or.inr rfl, hread, fun hc => (by cases hc), h.behind, h.faithful⟩
    · rw [handleClose_error (show ¬ Open { s.conn with inputBuffer := b } from hup)]
      exact ⟨hup, rfl⟩
  · rw [hok]
    show Inv { s with conn := s.conn, received := s.received ++ [] }
    rw [List.append_nil]
    exact h

theorem Inv.write (h : Inv s) (k : Kernel) : ∃ t, s.write k = .ok t ∧ Inv t := by
  obtain ⟨t, hok, hinv⟩ := h.duplex.write k
  refine ⟨t, hok, ?_⟩
  obtain ⟨⟨conn, effects⟩, hwrite, heq⟩ := bind_eq_ok.mp hok
  rw [nested_eq_ok] at hwrite
  obtain ⟨hin, hstate⟩ := handleWrite_same hwrite
  have heq := Except.ok.inj heq
  subst heq
  refine { duplex := hinv, state := ?_, empty := ?_, echoed := ?_, behind := h.behind,
           faithful := ?_ }
  · show conn.state = _ ∨ conn.state = _
    rw [hstate]
    exact h.state
  · show conn.inputBuffer.readable = []
    rw [hin]
    exact h.empty
  · intro hc
    have hc : conn.state = .kConnected := hc
    rw [hstate] at hc
    exact h.echoed hc
  · intro hfatal
    have hfatal : (s.calls ++ writeCalls effects).any WriteCall.fatal = false := hfatal
    rw [List.any_append, Bool.or_eq_false_iff] at hfatal
    exact h.faithful hfatal.1

theorem inv_init (h : duplex.init s) : Inv s := by
  obtain ⟨hreceived, -, hcalls, hmessages, sockfd, writeComplete, highWater, mark,
    effects, hest⟩ := id h
  have hstate : (configured sockfd writeComplete highWater mark).state = .kConnecting := rfl
  rw [connectEstablished, check_bind hstate] at hest
  injection hest with hest
  injection hest with hconn _
  have hsent : sentBytes s = s.received := by
    rw [sentBytes, hmessages, hreceived]
    rfl
  refine ⟨duplex_init h, ?_, ?_, fun _ => hsent, ?_, ?_⟩
  · rw [← hconn]
    exact Or.inl rfl
  · rw [← hconn]
    exact Buffer.new_readable _
  · rw [hsent]
  · intro _
    rw [hmessages, List.any_nil]

theorem Inv.step (h : Inv s) {a : Action} (hf : Fair s a) {r : Except SendFault Duplex}
    (hr : echo.step s a = some r) : Ends Inv (ClosedTwice s.conn) r := by
  cases a with
  | read extrabuf answer k =>
      obtain rfl := Option.some.inj hr
      exact h.read extrabuf hf.1 hf.2 k
  | write k =>
      obtain rfl := Option.some.inj hr
      obtain ⟨t, hok, hinv⟩ := h.write k
      rw [hok]
      exact hinv
  | close =>
      obtain rfl := Option.some.inj hr
      exact h.close

/-- No message was dropped, so all of them are kept. -/
theorem keptBytes_eq {messages : List Message} (h : messages.any Message.dropped = false) :
    keptBytes messages = messages.flatMap Message.data := by
  rw [keptBytes, List.filter_eq_self.mpr]
  intro m hm
  rw [List.any_eq_false] at h
  simpa using h m hm

/-- The server echoes: as long as no `write` has failed with `EPIPE` or `ECONNRESET`, the bytes
that the kernel has accepted and those that wait in the output buffer are the bytes received, in
order, while the connection is up, and the first of them behind its close. The only assertion
that may fail is that of a second `handleClose`. -/
theorem echo_faithful (h : echo.Reachable Fair s) :
    (s.calls.any WriteCall.fatal = false →
      acceptedBytes s.calls ++ s.conn.outputBuffer.readable <+: s.received ∧
        (s.conn.state = .kConnected →
          acceptedBytes s.calls ++ s.conn.outputBuffer.readable = s.received)) ∧
      ∀ a e, Fair s a → echo.Fails s a e → ClosedTwice s.conn e := by
  have hinv : Inv s := by
    apply h.invariant
    · intro s hs
      exact inv_init hs
    · intro s a t hs hf hn
      exact hs.step hf hn
  refine ⟨?_, fun a e hf hfails => hinv.step hf hfails⟩
  intro hfatal
  have hsent : acceptedBytes s.calls ++ s.conn.outputBuffer.readable = sentBytes s := by
    rw [hinv.duplex.stream, keptBytes_eq (hinv.faithful hfatal), sentBytes]
  rw [hsent]
  exact ⟨hinv.behind, hinv.echoed⟩

set_option maxRecDepth 10000 in
/-- Three bytes arrive, and the kernel takes them back at once. -/
theorem echo_faithful_sample : ∃ s : Duplex, echo.Reachable Fair s ∧ s.received = [1, 2, 3] ∧
    acceptedBytes s.calls ++ s.conn.outputBuffer.readable = s.received := by
  have hinit : duplex.init ⟨streamStart.conn, [], [], [], []⟩ :=
    ⟨rfl, rfl, rfl, rfl, 7, false, false, 0, [.updateChannel], rfl⟩
  obtain ⟨t, hnext, hreceived, hstate, hfatal⟩ : ∃ t, echo.Next ⟨streamStart.conn, [], [], [], []⟩
      (.read (Vector.replicate _ 0) (.received [1, 2, 3]) Kernel.eager) t ∧
        t.received = [1, 2, 3] ∧ t.conn.state = .kConnected ∧
        t.calls.any WriteCall.fatal = false := ⟨_, rfl, rfl, rfl, rfl⟩
  have hfair : Fair ⟨streamStart.conn, [], [], [], []⟩
      (.read (Vector.replicate _ 0) (.received [1, 2, 3]) Kernel.eager) :=
    ⟨show 3 ≤ streamStart.conn.inputBuffer.iov.sum by decide, show 3 ≤ maxRwCount by decide⟩
  have hreach : echo.Reachable Fair t := ⟨_, _, hinit, System.Run.single hfair hnext⟩
  obtain ⟨hfaithful, -⟩ := echo_faithful hreach
  exact ⟨t, hreach, hreceived, (hfaithful hfatal).2 hstate⟩

end Zing.Examples.EchoServer
