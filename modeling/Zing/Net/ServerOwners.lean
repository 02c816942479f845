import Zing.Net.ServerTearDown

set_option autoImplicit false

/-! # The connections of a server, one by one

What a server does among its loops is a piece of the life of one connection or another:
`events` says of which pieces a step consists, and `peers_step` that the step does nothing else
to the connections. The server holds a connection until its `connectDestroyed` has been called,
and not any longer (`Held.owned_iff`).
-/

namespace Zing.Net.ServerLoops

open Zing.Lib
open World
open TcpConnection (StateE)

/-! ## The life of a connection

A connection goes through `connectEstablished`, perhaps `shutdown`, perhaps `handleClose`, and
`connectDestroyed`, in this order and each at most once. -/

/-- A connection, and which of `connectEstablished` and `connectDestroyed` it has had. -/
structure Peer where
  conn : TcpConnection
  established : Bool
  destroyed : Bool

namespace Peer

def new (sockfd : Nat) : Peer where
  conn := TcpConnection.new sockfd
  established := false
  destroyed := false

/-- `connectEstablished`, whose `tie` and `enableReading` add the channel to the loop. -/
def establish (p : Peer) : Peer where
  conn := { p.conn with
    state := .kConnected
    channel := p.conn.channel.tie.enableReading }
  established := true
  destroyed := p.destroyed

/-- `shutdown`, behind its test. -/
def shutdown (p : Peer) : Peer := { p with conn := p.conn.setState .kDisconnecting }

/-- `handleClose`, behind its assertion. -/
def close (p : Peer) : Peer :=
  { p with conn := { p.conn with
      state := .kDisconnected
      channel := p.conn.channel.disableAll } }

/-- The connection behind `connectDestroyed`. -/
def removed (conn : TcpConnection) : TcpConnection :=
  { disconnected conn with
    channel := { (disconnected conn).channel with addedToLoop := false } }

/-- `connectDestroyed`, which a connection need not have been closed for. -/
def destroy (p : Peer) : Peer where
  conn := removed p.conn
  established := p.established
  destroyed := true

/-- How far a connection may be. It is in `kConnecting`, with a channel nobody has touched, until
`connectEstablished` (`new`, `begun`); `connectDestroyed` comes behind that and leaves it in
`kDisconnected` (`order`, `gone`); a disconnected connection watches nothing (`closed`); and its
channel is on the loop between the two calls (`added`). -/
structure Stage (p : Peer) : Prop where
  new : p.established = false →
    p.conn.state = .kConnecting ∧ ∃ fd, p.conn.channel = Channel.new fd
  begun : p.established = true → p.conn.state ≠ .kConnecting
  order : p.destroyed = true → p.established = true
  gone : p.destroyed = true → p.conn.state = .kDisconnected
  closed : p.conn.state = .kDisconnected → p.conn.channel.isNoneEvent = true
  added : p.conn.channel.addedToLoop = (p.established && !p.destroyed)

variable {p : Peer}

theorem stage_new (sockfd : Nat) : (new sockfd).Stage where
  new _ := ⟨rfl, sockfd, rfl⟩
  begun := by rintro ⟨⟩
  order := by rintro ⟨⟩
  gone := by rintro ⟨⟩
  closed := by rintro ⟨⟩
  added := rfl

/-- Only a disconnected connection has been destroyed. -/
theorem Stage.not_destroyed (h : p.Stage) (hopen : p.conn.state ≠ .kDisconnected) :
    p.destroyed = false := by
  by_contra hne
  exact hopen (h.gone (by simpa using hne))

/-- Only a connection that has been established is out of `kConnecting`. -/
theorem Stage.is_established (h : p.Stage) (hbegun : p.conn.state ≠ .kConnecting) :
    p.established = true := by
  by_contra hne
  exact hbegun (h.new (by simpa using hne)).1

theorem Stage.establish (h : p.Stage) (hnew : p.established = false) : p.establish.Stage where
  new := by rintro ⟨⟩
  begun _ := by rintro ⟨⟩
  order _ := rfl
  gone hd := by
    rw [h.order hd] at hnew
    cases hnew
  closed := by rintro ⟨⟩
  added := by
    have hd : p.destroyed = false := by
      apply h.not_destroyed
      rw [(h.new hnew).1]
      rintro ⟨⟩
    show true = (true && !p.destroyed)
    rw [hd]
    rfl

theorem Stage.shutdown (h : p.Stage) (hup : p.conn.state = .kConnected) :
    p.shutdown.Stage := by
  have hest := h.is_established (by rw [hup]; rintro ⟨⟩)
  have hnot := h.not_destroyed (by rw [hup]; rintro ⟨⟩)
  refine ⟨?_, ?_, ?_, ?_, ?_, h.added⟩
  · intro hnew
    exact absurd (hest.symm.trans hnew) (by rintro ⟨⟩)
  · rintro - ⟨⟩
  · exact h.order
  · intro hd
    exact absurd (hnot.symm.trans hd) (by rintro ⟨⟩)
  · rintro ⟨⟩

theorem Stage.close (h : p.Stage) (hup : p.conn.forceCloseTest = true) : p.close.Stage := by
  have hstate : p.conn.state = .kConnected ∨ p.conn.state = .kDisconnecting := by
    simpa [TcpConnection.forceCloseTest] using hup
  have hest : p.established = true := by
    apply h.is_established
    rcases hstate with hs | hs <;> rw [hs] <;> rintro ⟨⟩
  have hnot : p.destroyed = false := by
    apply h.not_destroyed
    rcases hstate with hs | hs <;> rw [hs] <;> rintro ⟨⟩
  refine ⟨?_, ?_, h.order, fun _ => rfl, fun _ => rfl, ?_⟩
  · intro hnew
    exact absurd (hest.symm.trans hnew) (by rintro ⟨⟩)
  · rintro - ⟨⟩
  · show true = (p.established && !p.destroyed)
    rw [hest, hnot]
    rfl

/-- `connectDestroyed` disables the channel itself where `handleClose` has not done it, so
`Channel::remove` finds `isNoneEvent()`. -/
theorem removed_eq {conn : TcpConnection} (hs : conn.state = .kConnected ∨
    conn.state = .kDisconnected ∧ conn.channel.isNoneEvent = true) :
    (removed conn).state = .kDisconnected ∧ (disconnected conn).channel.isNoneEvent = true := by
  rcases hs with hs | ⟨hs, hnone⟩
  · rw [removed, disconnected, if_pos hs]
    exact ⟨rfl, rfl⟩
  · rw [removed, disconnected, if_neg (by rw [hs]; rintro ⟨⟩)]
    exact ⟨hs, hnone⟩

/-- A connection that is established and not half closed. -/
theorem Stage.destroyable (h : p.Stage) (hest : p.established = true)
    (hhalf : p.conn.state ≠ .kDisconnecting) : p.conn.state = .kConnected ∨
      p.conn.state = .kDisconnected ∧ p.conn.channel.isNoneEvent = true := by
  cases hs : p.conn.state with
  | kConnected => exact Or.inl rfl
  | kDisconnected => exact Or.inr ⟨rfl, h.closed hs⟩
  | kConnecting => exact absurd hs (h.begun hest)
  | kDisconnecting => exact absurd hs hhalf

/-- The assertion of `Channel::remove` would fail for a half closed connection, whose channel
still watches. -/
theorem Stage.destroy (h : p.Stage) (hest : p.established = true)
    (hhalf : p.conn.state ≠ .kDisconnecting) : p.destroy.Stage := by
  obtain ⟨hstate, hnone⟩ := removed_eq (h.destroyable hest hhalf)
  refine ⟨?_, ?_, fun _ => hest, fun _ => hstate, fun _ => hnone, ?_⟩
  · intro hnew
    exact absurd (hest.symm.trans hnew) (by rintro ⟨⟩)
  · intro _ hc
    have hc' : (removed p.conn).state = .kConnecting := hc
    rw [hstate] at hc'
    cases hc'
  · show false = (p.established && !true)
    rw [Bool.not_true, Bool.and_false]

end Peer

/-- A piece of the life of a connection. -/
inductive Event
  | accepted (n sockfd : Nat)
  | established (n : Nat)
  | shutdown (n : Nat)
  | closed (n : Nat)
  | destroyed (n : Nat)
  deriving DecidableEq, Repr

namespace Event

/-- The connection that the event is about, and no other, goes a piece further. -/
def apply (peers : Nat → Peer) : Event → Nat → Peer
  | accepted n sockfd => Function.update peers n (Peer.new sockfd)
  | established n => Function.update peers n (peers n).establish
  | shutdown n => Function.update peers n (peers n).shutdown
  | closed n => Function.update peers n (peers n).close
  | destroyed n => Function.update peers n (peers n).destroy

/-- What has come before. -/
def Allowed (peers : Nat → Peer) : Event → Prop
  | accepted _ _ => True
  | established n => (peers n).established = false
  | shutdown n => (peers n).conn.state = .kConnected
  | closed n => (peers n).conn.forceCloseTest = true
  | destroyed n => (peers n).established = true ∧ (peers n).conn.state ≠ .kDisconnecting

variable {peers : Nat → Peer} {e : Event} {n : Nat}

/-- One connection has changed, and is as far as it may be. -/
theorem stage_update {p : Peer} {k : Nat} (hk : (peers k).Stage → p.Stage)
    (hn : (peers n).Stage) : (Function.update peers k p n).Stage := by
  by_cases hnk : n = k
  · subst hnk
    rw [Function.update_self]
    exact hk hn
  · rw [Function.update_of_ne hnk]
    exact hn

/-- By cases on the event, each with the lemma about that piece of a life. -/
theorem Allowed.stage (h : e.Allowed peers) (hn : (peers n).Stage) : (e.apply peers n).Stage := by
  cases e with
  | accepted k sockfd => exact stage_update (fun _ => Peer.stage_new sockfd) hn
  | established k => exact stage_update (fun hk => hk.establish h) hn
  | shutdown k => exact stage_update (fun hk => hk.shutdown h) hn
  | closed k => exact stage_update (fun hk => hk.close h) hn
  | destroyed k => exact stage_update (fun hk => hk.destroy h.1 h.2) hn

end Event

variable {L : Type} [DecidableEq L] {w v : World L} {l : L} {n m : Nat} {f : Functor}
  {a : Action L} {r : Except Assertion (World L)}

/-! ## The steps as pieces of lives -/

namespace World

/-- The connections as they are seen from the log: what has been called for each. -/
def peers (w : World L) (n : Nat) : Peer where
  conn := w.conn n
  established := decide (.connectEstablished n ∈ w.mail.log)
  destroyed := decide (.connectDestroyed n ∈ w.mail.log)

/-- What happens to the connections in a step. -/
def events (w : World L) : Action L → List Event
  | .accept l sockfd =>
      .accepted w.accepted sockfd :: if w.base = l then [.established w.accepted] else []
  | .shutdown n => [.shutdown n]
  | .handleClose n => [.closed n]
  | .run l =>
      match w.mail.queue l with
      | .connectEstablished n :: _ => [.established n]
      | .connectDestroyed n :: _ => [.destroyed n]
      | _ => []
  | .destroyItem n => if w.base = w.loop n then [.destroyed n] else []
  | _ => []

end World

omit [DecidableEq L] in
/-- A function of one connection. -/
theorem peers_setConn (conn : TcpConnection) : (w.setConn n conn).peers =
    Function.update w.peers n { w.peers n with conn := conn } := by
  funext m
  by_cases hm : m = n
  · subst hm
    rw [Function.update_self, peers, setConn_conn, if_pos rfl]
    rfl
  · rw [Function.update_of_ne hm, peers, setConn_conn, if_neg hm]
    rfl

omit [DecidableEq L] in
/-- Where `connectEstablished` ends well, its assertion has held. -/
theorem connectEstablished_ok (hok : w.connectEstablished n = .ok v) :
    (w.conn n).state = .kConnecting ∧ v = w.setConn n (w.peers n).establish.conn := by
  obtain ⟨r, hr, hv⟩ := bind_eq_ok.mp hok
  obtain ⟨_, hcheck, hr'⟩ := bind_eq_ok.mp (nested_eq_ok.mp hr)
  cases hr'
  cases hv
  exact ⟨check_eq_ok.mp hcheck, rfl⟩

omit [DecidableEq L] in
theorem connectDestroyed_ok (hok : w.connectDestroyed n = .ok v) :
    v = w.setConn n (w.peers n).destroy.conn := by
  obtain ⟨_, -, hv⟩ := bind_eq_ok.mp hok
  cases hv
  rfl

omit [DecidableEq L] in
theorem handleClose_ok (hok : w.handleClose n = .ok v) :
    v = w.setConn n (w.peers n).close.conn := by
  obtain ⟨r, hr, hv⟩ := bind_eq_ok.mp hok
  obtain ⟨_, -, hr'⟩ := bind_eq_ok.mp (nested_eq_ok.mp hr)
  cases hr'
  cases hv
  rfl

theorem removeConnectionInLoop_ok (hok : w.removeConnectionInLoop n = .ok v) :
    ∃ server, w.server.removeConnectionInLoop ⟨n, (w.entry n).name⟩ = .ok server ∧
      v = { w with
        server := server
        mail := w.mail.post (w.loop n) (.connectDestroyed n) } := by
  obtain ⟨_, -, hrest⟩ := bind_eq_ok.mp hok
  obtain ⟨server, hs, hv⟩ := bind_eq_ok.mp hrest
  cases hv
  exact ⟨server, nested_eq_ok.mp hs, rfl⟩

omit [DecidableEq L] in
/-- A functor has been called. -/
theorem peers_called {mail : Mail L Functor} (hlog : mail.log = w.mail.log ++ [f]) (m : Nat) :
    { w with mail := mail }.peers m =
      { w.peers m with
        established := (w.peers m).established || decide (f = .connectEstablished m)
        destroyed := (w.peers m).destroyed || decide (f = .connectDestroyed m) } := by
  have hmem : ∀ g : Functor,
      decide (g ∈ w.mail.log ++ [f]) = (decide (g ∈ w.mail.log) || decide (f = g)) := by
    intro g
    rw [Bool.eq_iff_iff]
    simp only [Bool.or_eq_true, decide_eq_true_eq, List.mem_append, List.mem_singleton]
    exact or_congr Iff.rfl eq_comm
  simp only [peers, hlog, hmem]
  rfl

omit [DecidableEq L] in
/-- `connectEstablished` is called, and the log says so. -/
theorem peers_establish {mail : Mail L Functor}
    (hlog : mail.log = w.mail.log ++ [.connectEstablished n])
    (hok : { w with mail := mail }.connectEstablished n = .ok v) :
    v.peers = (Event.established n).apply w.peers := by
  obtain ⟨-, rfl⟩ := connectEstablished_ok hok
  rw [peers_setConn]
  funext m
  by_cases hm : m = n
  · subst hm
    rw [Event.apply, Function.update_self, Function.update_self, peers_called hlog]
    simp [Peer.establish]
  · rw [Event.apply, Function.update_of_ne hm, Function.update_of_ne hm, peers_called hlog]
    simp [Ne.symm hm]

omit [DecidableEq L] in
/-- `connectDestroyed` is called, and the log says so. -/
theorem peers_destroy {mail : Mail L Functor}
    (hlog : mail.log = w.mail.log ++ [.connectDestroyed n])
    (hok : { w with mail := mail }.connectDestroyed n = .ok v) :
    v.peers = (Event.destroyed n).apply w.peers := by
  cases connectDestroyed_ok hok
  rw [peers_setConn]
  funext m
  by_cases hm : m = n
  · subst hm
    rw [Event.apply, Function.update_self, Function.update_self, peers_called hlog]
    simp [Peer.destroy]
  · rw [Event.apply, Function.update_of_ne hm, Function.update_of_ne hm, peers_called hlog]
    simp [Ne.symm hm]

/-- A removal is called. -/
theorem peers_removal {mail : Mail L Functor}
    (hlog : mail.log = w.mail.log ++ [.removeConnectionInLoop m])
    (hok : { w with mail := mail }.removeConnectionInLoop m = .ok v) : v.peers = w.peers := by
  obtain ⟨server, -, rfl⟩ := removeConnectionInLoop_ok hok
  funext k
  have hk := peers_called (w := w) hlog k
  simp only [reduceCtorEq, decide_false, Bool.or_false] at hk
  exact hk

omit [DecidableEq L] in
/-- A new connection is behind all that have been accepted. -/
theorem peers_accept {sockfd : Nat} (h : Inv w) {mail : Mail L Functor}
    (hlog : mail.log = w.mail.log) : (w.accepting l sockfd mail).peers =
      (Event.accepted w.accepted sockfd).apply w.peers := by
  have hnot : ∀ f : Functor, f.isOf w.accepted = true → f ∉ mail.log := by
    intro f hf hmem
    rw [hlog] at hmem
    exact Nat.lt_irrefl _ (h.logged _ ⟨f, hmem, hf⟩)
  funext m
  by_cases hm : m = w.accepted
  · subst hm
    rw [Event.apply, Function.update_self]
    have hest : decide (Functor.connectEstablished w.accepted ∈ mail.log) = false :=
      decide_eq_false (hnot _ (by simp))
    have hdes : decide (Functor.connectDestroyed w.accepted ∈ mail.log) = false :=
      decide_eq_false (hnot _ (by simp))
    show Peer.mk _ (decide (_ ∈ mail.log)) (decide (_ ∈ mail.log)) = _
    rw [hest, hdes, World.conn, accepting_entry_self]
    rfl
  · rw [Event.apply, Function.update_of_ne hm]
    show Peer.mk _ (decide (_ ∈ mail.log)) (decide (_ ∈ mail.log)) = _
    rw [hlog, World.conn]
    show Peer.mk (Function.update w.entry w.accepted _ m).conn _ _ = _
    rw [Function.update_of_ne hm]
    rfl

/-- A step does to the connections what its events say. -/
theorem peers_step (h : Inv w) (hm : Moves w a (.ok v)) :
    v.peers = (w.events a).foldl Event.apply w.peers := by
  generalize hr : Except.ok v = r at hm
  cases hm with
  | @accept l sockfd hb hl =>
      simp only [World.events]
      rw [runInLoop] at hr
      split at hr
      · rename_i hbase
        -- on the base loop `connectEstablished` runs at once, and is an event of the same step
        rw [if_pos hbase]
        have hnew := peers_establish (w := w.accepting l sockfd w.mail) rfl hr.symm
        rw [peers_accept h rfl] at hnew
        exact hnew
      · rename_i hbase
        rw [if_neg hbase]
        cases hr
        exact peers_accept h rfl
  | shutdown hn ht =>
      cases hr
      exact peers_setConn _
  | @handleClose n hn hb hc =>
      cases handleClose_ok hr.symm
      exact peers_setConn _
  | @closeCallback l n hc hd =>
      obtain ⟨_, -, hok⟩ := bind_eq_ok.mp hr.symm
      rw [runInLoop] at hok
      split at hok
      · exact peers_removal
          (w := { w with closing := Function.update w.closing l none }) rfl hok
      · cases hok
        rfl
  | @run l f rest hq hb =>
      simp only [World.events, hq]
      cases f with
      | connectEstablished n => exact peers_establish rfl hr.symm
      | connectDestroyed n => exact peers_destroy rfl hr.symm
      | removeConnectionInLoop n => exact peers_removal rfl hr.symm
  | destroyServer =>
      cases hr
      rfl
  | @destroyItem todo n hl hn =>
      simp only [World.events]
      rw [runInLoop] at hr
      split at hr
      · rename_i hbase
        rw [if_pos hbase]
        exact peers_destroy (w := { w with life := .destructing (todo.erase n) }) rfl hr.symm
      · rename_i hbase
        rw [if_neg hbase]
        cases hr
        rfl
  | serverDestroyed =>
      cases hr
      rfl

/-! ## Who holds a connection

A `shared_ptr` is in the table, also while `~TcpServer` goes through it, in a functor that is
due, or on the stack of `handleClose`. -/

namespace World

/-- The table has the connection, or `~TcpServer` has still to come to it. -/
def listed (w : World L) (n : Nat) : Bool :=
  match w.life with
  | .alive => decide (n ∈ w.items)
  | .destructing todo => decide (n ∈ todo)
  | .destroyed => false

/-- There is a `shared_ptr` to the connection: in `connections_`, in a functor that is due, or
in `handleClose`. -/
def owned (w : World L) (n : Nat) : Bool :=
  w.listed n || (w.mail.queue (w.loop n)).any (Functor.isOf n) ||
    decide (.removeConnectionInLoop n ∈ w.mail.queue w.base) ||
    decide (w.closing (w.loop n) = some n)

/-- A connection that is not to be destroyed yet is in the table. -/
def Listed (w : World L) : Prop :=
  ∀ n < w.accepted, w.history n = [.connectEstablished n] → w.listed n = true

/-- What holds between the steps of a run in which names are free and no half closed connection is
destroyed: nothing of the invariant of `Net/ServerRemoval` is lost, a connection leaves the table
only to be destroyed, and each is as far as what has been called for it says. -/
structure Held (w : World L) : Prop where
  inv : Inv w
  listed : w.Listed
  stage : ∀ n < w.accepted, (w.peers n).Stage

/-- The base loop is about to call `removeConnectionInLoop`. -/
structure Removing (w : World L) (n : Nat) : Prop where
  inv : Inv w
  listed : w.Listed
  closed : Closed w n

end World

/-- What else it takes that no assertion fails: the name that the server gives next is not in
use, and no connection is destroyed that is half closed. -/
structure Proper (w : World L) (a : Action L) : Prop extends Keeps w a where
  name : ∀ l sockfd, a = .accept l sockfd →
    w.server.connections.lookup w.server.connName = none
  halfClosed : ∀ n, .destroyed n ∈ w.events a → (w.conn n).state ≠ .kDisconnecting

section

omit [DecidableEq L]

/-- What the table finds under a name is among the connections of the server. -/
theorem mem_items (name : List Char) {c : Conn}
    (hc : w.server.connections.lookup name = some c) : c.ordinal ∈ w.items :=
  List.mem_map.mpr ⟨⟨name, c⟩, AList.mem_lookup_iff.mp hc, rfl⟩

/-- A connection of the table is found under its name. -/
theorem World.Attached.lookup (h : w.Attached) (hn : n ∈ w.items) :
    ∃ c, w.server.connections.lookup (w.entry n).name = some c ∧ c.ordinal = n := by
  obtain ⟨e, he, rfl⟩ := List.mem_map.mp hn
  have hlookup : w.server.connections.lookup e.1 = some e.2 := AList.mem_lookup_iff.mpr he
  refine ⟨e.2, ?_, rfl⟩
  rw [(h.table e.1 e.2 hlookup).2.1]
  exact hlookup

theorem listed_iff (hlife : w.life = .alive) : w.listed n = true ↔ n ∈ w.items := by
  rw [listed, hlife]
  exact decide_eq_true_iff

/-- The table, `~TcpServer` and the histories are what they were. -/
theorem World.Listed.congr (h : w.Listed) (haccepted : v.accepted = w.accepted)
    (hlife : v.life = w.life) (hserver : v.server = w.server)
    (hhistory : ∀ n < w.accepted, v.history n = w.history n) : v.Listed := by
  intro n hn hn'
  rw [haccepted] at hn
  rw [hhistory n hn] at hn'
  have hold := h n hn hn'
  rw [listed, items] at hold ⊢
  rw [hlife, hserver]
  exact hold

theorem World.Listed.setConn (h : w.Listed) (conn : TcpConnection) :
    (w.setConn n conn).Listed :=
  h.congr rfl rfl rfl fun _ _ => history_setConn conn

end

omit [DecidableEq L] in
/-- Every connection that is not to be destroyed yet is found in the table, the one that is
removed among them. -/
theorem World.Removing.lookup (h : w.Removing n) (hm : m < w.accepted)
    (hhist : w.history m = [.connectEstablished m]) :
    ∃ c, w.server.connections.lookup (w.entry m).name = some c ∧ c.ordinal = m := by
  apply (h.inv.attached h.closed.life).lookup
  exact (listed_iff h.closed.life).mp (h.listed m hm hhist)

/-- A connection leaves the table as its `connectDestroyed` becomes due. -/
theorem World.Removing.listed_removed (h : w.Removing n)
    (hok : w.removeConnectionInLoop n = .ok v) : v.Listed := by
  obtain ⟨server, hs, rfl⟩ := removeConnectionInLoop_ok hok
  obtain ⟨_, -, hs'⟩ := bind_eq_ok.mp hs
  cases hs'
  intro m hm hhist
  have ht : Told w (w.loop n) (.connectDestroyed n) (w.mail.post (w.loop n) _) := .posted
  by_cases hmn : m = n
  · subst hmn
    have hself := ht.history_self (n := m) (by simp)
      (h.inv.queue_base h.closed.accepted h.closed.history)
    have hboth : w.history m ++ [.connectDestroyed m] = [.connectEstablished m] :=
      hself.symm.trans hhist
    rw [h.closed.history] at hboth
    cases hboth
  · have hother : w.history m = [.connectEstablished m] :=
      (ht.history_of_not (by simp [Ne.symm hmn])).symm.trans hhist
    obtain ⟨c, hc, rfl⟩ := h.lookup hm hother
    obtain ⟨c', hc', hn'⟩ := h.lookup h.closed.accepted h.closed.history
    -- two connections of the table have two names
    have hname : (w.entry c.ordinal).name ≠ (w.entry n).name := by
      intro heq
      rw [heq, hc', Option.some.injEq] at hc
      rw [← hc] at hmn
      exact hmn hn'
    have hlife : { w with
        server := { w.server with
          connections := w.server.connections.erase (w.entry n).name }
        mail := w.mail.post (w.loop n) (.connectDestroyed n) }.life = .alive := h.closed.life
    apply (listed_iff hlife).mpr
    apply mem_items (w.entry c.ordinal).name
    show (w.server.connections.erase (w.entry n).name).lookup _ = some c
    rw [AList.lookup_erase_ne hname]
    exact hc

/-- `assert(n == 1)` behind `connections_.erase` holds: the connection is in the table. -/
theorem World.Removing.succeeds (h : w.Removing n) :
    ∃ v, w.removeConnectionInLoop n = .ok v := by
  have halive : w.life ≠ .destroyed := by
    rw [h.closed.life]
    rintro ⟨⟩
  obtain ⟨c, hc, -⟩ := h.lookup h.closed.accepted h.closed.history
  have hmem : (w.entry n).name ∈ w.server.connections := by
    apply AList.lookup_isSome.mp
    rw [hc]
    rfl
  have hserver : w.server.removeConnectionInLoop ⟨n, (w.entry n).name⟩ = .ok { w.server with
      connections := w.server.connections.erase (w.entry n).name } := by
    rw [TcpServer.removeConnectionInLoop, if_pos hmem]
    rfl
  rw [World.removeConnectionInLoop, check_bind halive, hserver]
  exact ⟨_, rfl⟩

/-- `closeCallback_` calls the removal on the base loop. -/
theorem removing_closing (h : Inv w) (hlisted : w.Listed) (hc : w.closing l = some n) :
    { w with
      closing := Function.update w.closing l none
      mail := w.mail.direct (.removeConnectionInLoop n) }.Removing n := by
  have hremovals := removals_endClose h hc n
  rw [if_pos rfl] at hremovals
  have hhistory : ∀ m, { w with
      closing := Function.update w.closing l none
      mail := w.mail.direct (.removeConnectionInLoop n) }.history m = w.history m :=
    fun m => Mail.history_direct_of_not isOf_removeConnectionInLoop
  refine ⟨(h.endClose hc).logRemoval n, ?_, ?_⟩
  · exact hlisted.congr rfl rfl rfl fun k _ => hhistory k
  · exact closed_of_removal h (alive_of_bound h (Or.inr ⟨l, n, hc⟩)) (h.closing l n hc).1
      rfl rfl rfl (hhistory n) hremovals

/-- A removal is the next of the functors of the base loop. -/
theorem removing_queued {rest : List Functor} (h : Inv w) (hlisted : w.Listed)
    (hq : w.mail.queue w.base = .removeConnectionInLoop n :: rest) :
    { w with mail := w.mail.next w.base (.removeConnectionInLoop n) rest }.Removing n := by
  have hmem : .removeConnectionInLoop n ∈ w.mail.queue w.base := by
    rw [hq]
    exact List.mem_cons_self
  refine ⟨h.take hq, ?_, ?_⟩
  · exact hlisted.congr rfl rfl rfl fun k _ => history_take h hq k
  · exact closed_of_removal h (alive_of_bound h (Or.inl ⟨n, hmem⟩)) (h.queued _ _ hmem).1
      rfl rfl rfl (history_take h hq n) (removals_take_self hq)

/-- The new connection is in the table, and its name hides no other. -/
theorem World.Listed.accept {sockfd : Nat} {mail : Mail L Functor} (h : Inv w)
    (hlisted : w.Listed) (hlife : w.life = .alive)
    (hname : w.server.connections.lookup w.server.connName = none)
    (ht : Told w l (.connectEstablished w.accepted) mail) :
    (w.accepting l sockfd mail).Listed := by
  intro n hn hhist
  have hlife' : (w.accepting l sockfd mail).life = .alive := hlife
  apply (listed_iff hlife').mpr
  have htable : (w.accepting l sockfd mail).server.connections =
    w.server.connections.insert w.server.connName ⟨w.accepted, w.server.connName⟩ := rfl
  rcases Nat.lt_succ_iff_lt_or_eq.mp hn with hn | rfl
  · rw [accepting_history ht hn] at hhist
    obtain ⟨c, hc, rfl⟩ := (h.attached hlife).lookup ((listed_iff hlife).mp (hlisted n hn hhist))
    apply mem_items (w.entry c.ordinal).name
    rw [htable, AList.lookup_insert_ne]
    · exact hc
    · intro heq
      rw [heq, hname] at hc
      cases hc
  · apply mem_items w.server.connName (c := ⟨w.accepted, w.server.connName⟩)
    rw [htable, AList.lookup_insert]

/-- `~TcpServer` comes to one of its connections. -/
theorem World.Listed.destroyItem {todo : List Nat} {mail : Mail L Functor} (h : Inv w)
    (hlisted : w.Listed) (hlife : w.life = .destructing todo) (hn : n ∈ todo)
    (ht : Told w (w.loop n) (.connectDestroyed n) mail) :
    { w with life := .destructing (todo.erase n), mail := mail }.Listed := by
  obtain ⟨hlt, hhist⟩ := (h.todo todo hlife).2 n hn
  intro m hm hm'
  apply decide_eq_true
  by_cases hmn : m = n
  · subst hmn
    have hself := ht.history_self (n := m) (by simp) (h.queue_base hlt hhist)
    have hboth : w.history m ++ [.connectDestroyed m] = [.connectEstablished m] :=
      hself.symm.trans hm'
    rw [hhist] at hboth
    cases hboth
  · have hother : w.history m = [.connectEstablished m] :=
      (ht.history_of_not (by simp [Ne.symm hmn])).symm.trans hm'
    have hold := hlisted m hm hother
    rw [listed, hlife] at hold
    exact (List.mem_erase_of_ne hmn).mpr (of_decide_eq_true hold)

/-- Who is to be destroyed leaves the table, and nobody else. -/
theorem World.Listed.step (h : Inv w) (hlisted : w.Listed) (hp : Proper w a)
    (hm : Moves w a (.ok v)) : v.Listed := by
  generalize hr : Except.ok v = r at hm
  cases hm with
  | @accept l sockfd hb hl =>
      -- a name that is free drops nobody from the table
      have hname := hp.name l sockfd rfl
      rw [runInLoop] at hr
      split at hr
      · rename_i hbase
        obtain ⟨-, rfl⟩ := connectEstablished_ok hr.symm
        exact (hlisted.accept h hl hname (.called hbase.symm)).setConn _
      · cases hr
        exact hlisted.accept h hl hname .posted
  | shutdown =>
      cases hr
      exact hlisted.setConn _
  | @handleClose n hn hb hc =>
      cases handleClose_ok hr.symm
      have hsame : { w with
          closing := Function.update w.closing (w.loop n) (some n) }.Listed := hlisted
      exact hsame.setConn _
  | @closeCallback l n hc hd =>
      obtain ⟨_, -, hok⟩ := bind_eq_ok.mp hr.symm
      rw [runInLoop] at hok
      split at hok
      · exact (removing_closing h hlisted hc).listed_removed hok
      · cases hok
        exact hlisted.congr rfl rfl rfl fun k _ =>
          Mail.history_post_of_not isOf_removeConnectionInLoop
  | @run l f rest hq hb =>
      have htake : { w with mail := w.mail.next l f rest }.Listed :=
        hlisted.congr rfl rfl rfl fun k _ => history_take h hq k
      cases f with
      | connectEstablished n =>
          obtain ⟨-, rfl⟩ := connectEstablished_ok hr.symm
          exact htake.setConn _
      | connectDestroyed n =>
          cases connectDestroyed_ok hr.symm
          exact htake.setConn _
      | removeConnectionInLoop n =>
          obtain ⟨-, rfl⟩ := h.queued l (.removeConnectionInLoop n) (by simp [hq])
          exact (removing_queued h hlisted hq).listed_removed hr.symm
  | destroyServer hl =>
      cases hr
      intro n hn hhist
      -- the destructor begins with the whole table
      exact decide_eq_true ((listed_iff hl).mp (hlisted n hn hhist))
  | @destroyItem todo n hl hn =>
      have hdue : ∀ mail, Told w (w.loop n) (.connectDestroyed n) mail →
          { w with life := .destructing (todo.erase n), mail := mail }.Listed :=
        fun mail ht => hlisted.destroyItem h hl hn ht
      rw [runInLoop] at hr
      split at hr
      · rename_i hbase
        cases connectDestroyed_ok hr.symm
        exact (hdue _ (.called hbase.symm)).setConn _
      · cases hr
        exact hdue _ .posted
  | serverDestroyed hl =>
      cases hr
      intro n hn hhist
      have hold := hlisted n hn hhist
      rw [listed, hl] at hold
      cases hold

/-! ## No assertion fails but that of a second `handleClose` -/

namespace Event

/-- Each piece is allowed behind those in front of it. -/
def Follows : (Nat → Peer) → List Event → Prop
  | _, [] => True
  | peers, e :: es => e.Allowed peers ∧ Follows (e.apply peers) es

theorem Follows.stage {peers : Nat → Peer} {es : List Event} (h : Follows peers es)
    (hn : (peers n).Stage) : (es.foldl Event.apply peers n).Stage := by
  induction es generalizing peers with
  | nil => exact hn
  | cons e es ih => exact ih h.2 (h.1.stage hn)

end Event

omit [DecidableEq L] in
/-- The next call for a connection is what its history says. -/
theorem World.Inv.called_first (h : Inv w) {rest : List Functor}
    (hq : w.mail.queue l = f :: rest) (hf : f.isOf n = true) :
    n < w.accepted ∧ w.loop n = l ∧ ∃ after,
      w.history n = w.mail.log.filter (Functor.isOf n) ++ f :: after := by
  obtain ⟨hn, hloop⟩ := (h.queued l f (by rw [hq]; exact List.mem_cons_self)).of_isOf hf
  refine ⟨hn, hloop, rest.filter (Functor.isOf n), ?_⟩
  rw [World.history, Mail.history_eq, hloop, hq, List.filter_cons_of_pos hf]

omit [DecidableEq L] in
/-- `connectEstablished` comes once, so it has not been called where it is the next. -/
theorem World.Inv.not_established (h : Inv w) {rest : List Functor}
    (hq : w.mail.queue l = .connectEstablished n :: rest) :
    .connectEstablished n ∉ w.mail.log := by
  obtain ⟨hn, hloop, -⟩ := h.called_first hq (n := n) (by simp)
  have hcount := h.established hn
  rw [hloop, hq, List.count_cons_self] at hcount
  apply List.count_eq_zero.mp
  omega

omit [DecidableEq L] in
/-- `connectDestroyed` comes second. -/
theorem World.Inv.established_first (h : Inv w) {rest : List Functor}
    (hq : w.mail.queue l = .connectDestroyed n :: rest) :
    .connectEstablished n ∈ w.mail.log := by
  obtain ⟨hn, -, after, heq⟩ := h.called_first hq (n := n) (by simp)
  cases hlog : w.mail.log.filter (Functor.isOf n) with
  | nil =>
      -- `connectDestroyed` would come first
      rw [hlog, List.nil_append] at heq
      rcases h.history n hn with hhist | hhist <;>
        · rw [heq] at hhist
          cases hhist
  | cons g gs =>
      have hmem : g ∈ w.mail.log.filter (Functor.isOf n) := by
        rw [hlog]
        exact List.mem_cons_self
      have hg : g = .connectEstablished n := by
        rw [hlog, List.cons_append] at heq
        rcases h.history n hn with hhist | hhist <;>
          · rw [heq] at hhist
            exact (List.cons.inj hhist).1
      rw [← hg]
      exact List.mem_of_mem_filter hmem

omit [DecidableEq L] in
/-- `handleClose` the first time: the connection is up. -/
theorem up_of_not_again (ha : ¬ w.Again (.handleClose n))
    (hc : (w.conn n).state ≠ .kConnecting) : (w.conn n).forceCloseTest = true := by
  have hd : (w.conn n).state ≠ .kDisconnected := fun hd => ha ⟨n, rfl, hd⟩
  rw [TcpConnection.forceCloseTest]
  cases hs : (w.conn n).state <;> simp_all

/-- `handleClose` another time fails its assertion. -/
theorem again_error (ha : w.Again a) (hm : Moves w a r) :
    r = .error (.tcp .handleCloseState) := by
  obtain ⟨n, rfl, hd⟩ := ha
  cases hm with
  | handleClose =>
      have hdown : ¬ ((w.conn n).state = .kConnected ∨ (w.conn n).state = .kDisconnecting) := by
        rw [hd]
        rintro (⟨⟨⟩⟩ | ⟨⟨⟩⟩)
      show nested _ (w.conn n).handleClose >>= _ = _
      rw [TcpConnection.handleClose, check_error hdown]
      rfl

theorem not_again_of_ok (hm : Moves w a (.ok v)) : ¬ w.Again a := by
  intro ha
  cases again_error ha hm

/-- What a step does to a connection, the connection is ready for. -/
theorem follows_step (h : Inv w) (hp : Proper w a) (ha : ¬ w.Again a) (hm : Moves w a r) :
    Event.Follows w.peers (w.events a) := by
  have hhalf := hp.halfClosed
  cases hm with
  | @accept l sockfd hb hl =>
      refine ⟨trivial, ?_⟩
      split
      · refine ⟨?_, trivial⟩
        show (Function.update w.peers w.accepted (Peer.new sockfd) w.accepted).established = false
        rw [Function.update_self]
        rfl
      · trivial
  | @shutdown n hn ht =>
      have hup : (w.conn n).state = .kConnected := of_decide_eq_true ht
      exact ⟨hup, trivial⟩
  -- the one event whose assertion the conditions do not exclude
  | @handleClose n hn hb hc => exact ⟨up_of_not_again ha hc, trivial⟩
  | @run l f rest hq hb =>
      simp only [World.events, hq] at hhalf ⊢
      cases f with
      | connectEstablished n => exact ⟨decide_eq_false (h.not_established hq), trivial⟩
      | connectDestroyed n =>
          refine ⟨⟨decide_eq_true (h.established_first hq), ?_⟩, trivial⟩
          exact hhalf n (List.mem_singleton_self _)
      | removeConnectionInLoop n => trivial
  | @destroyItem todo n hl hn =>
      simp only [World.events] at hhalf ⊢
      split
      · rename_i hbase
        rw [if_pos hbase] at hhalf
        have hlt := ((h.todo todo hl).2 n hn).1
        refine ⟨⟨decide_eq_true (h.direct n hlt hbase.symm), ?_⟩, trivial⟩
        exact hhalf n (List.mem_singleton_self _)
      · trivial
  | _ => trivial

section

omit [DecidableEq L]

/-- Each function of a connection succeeds in the states that its assertions ask for. -/
theorem connectEstablished_succeeds (hs : (w.conn n).state = .kConnecting) :
    ∃ v, w.connectEstablished n = .ok v := by
  rw [World.connectEstablished, TcpConnection.connectEstablished, check_bind hs]
  exact ⟨_, rfl⟩

theorem handleClose_succeeds (ht : (w.conn n).forceCloseTest = true) :
    ∃ v, w.handleClose n = .ok v := by
  have hs : (w.conn n).state = .kConnected ∨ (w.conn n).state = .kDisconnecting := by
    simpa [TcpConnection.forceCloseTest] using ht
  rw [World.handleClose, TcpConnection.handleClose, check_bind hs]
  exact ⟨_, rfl⟩

theorem connectDestroyed_succeeds (hs : (w.conn n).state = .kConnected ∨
    (w.conn n).state = .kDisconnected ∧ (w.conn n).channel.isNoneEvent = true) :
    ∃ v, w.connectDestroyed n = .ok v := by
  rw [World.connectDestroyed, check_bind (Peer.removed_eq hs).2]
  exact ⟨_, rfl⟩

end

namespace World

omit [DecidableEq L] in
/-- A connection that is ready for `connectDestroyed`. -/
theorem Held.destroyable (hh : w.Held) (hn : n < w.accepted)
    (ha : (Event.destroyed n).Allowed w.peers) : (w.conn n).state = .kConnected ∨
      (w.conn n).state = .kDisconnected ∧ (w.conn n).channel.isNoneEvent = true :=
  (hh.stage n hn).destroyable ha.1 ha.2

/-- No assertion fails. -/
theorem Held.succeeds (hh : w.Held) (hp : Proper w a) (ha : ¬ w.Again a) (hm : Moves w a r) :
    ∃ v, r = .ok v := by
  have h := hh.inv
  have hfollows := follows_step h hp ha hm
  cases hm with
  | @accept l sockfd hb hl =>
      rw [runInLoop]
      split
      · apply connectEstablished_succeeds
        -- the connection has just been constructed
        show ((w.accepting l sockfd w.mail).entry w.accepted).conn.state = .kConnecting
        rw [accepting_entry_self]
        rfl
      · exact ⟨_, rfl⟩
  | shutdown => exact ⟨_, rfl⟩
  | @handleClose n hn hb hc => exact handleClose_succeeds (up_of_not_again ha hc)
  | @closeCallback l n hc hd =>
      -- `closeCallback_` is bound to the server, which is alive while a close is under way
      have halive : w.life ≠ .destroyed := by
        rw [alive_of_bound h (Or.inr ⟨l, n, hc⟩)]
        rintro ⟨⟩
      rw [World.closeCallback, check_bind halive, runInLoop]
      split
      · exact (removing_closing h hh.listed hc).succeeds
      · exact ⟨_, rfl⟩
  | @run l f rest hq hb =>
      have hf := h.queued l f (by rw [hq]; exact List.mem_cons_self)
      simp only [World.events, hq] at hfollows
      cases f with
      | connectEstablished n =>
          exact connectEstablished_succeeds ((hh.stage n hf.1).new hfollows.1).1
      | connectDestroyed n =>
          exact connectDestroyed_succeeds (hh.destroyable hf.1 hfollows.1)
      | removeConnectionInLoop n =>
          obtain ⟨-, rfl⟩ := hf
          exact (removing_queued h hh.listed hq).succeeds
  | destroyServer => exact ⟨_, rfl⟩
  | @destroyItem todo n hl hn =>
      simp only [World.events] at hfollows
      rw [runInLoop]
      split
      · rename_i hbase
        rw [if_pos hbase] at hfollows
        exact connectDestroyed_succeeds
          (hh.destroyable ((h.todo todo hl).2 n hn).1 hfollows.1)
      · exact ⟨_, rfl⟩
  | serverDestroyed => exact ⟨_, rfl⟩

end World

/-- The connections are the same, each on its loop. -/
structure SameLoops (w v : World L) : Prop where
  accepted : v.accepted = w.accepted
  loop : ∀ n, v.loop n = w.loop n

/-- Only an accept makes a new connection. -/
theorem accepted_step (hm : Moves w a (.ok v)) : SameLoops w v ∨
    ∃ l sockfd, a = .accept l sockfd ∧ v.accepted = w.accepted + 1 ∧
      ∀ n < w.accepted, v.loop n = w.loop n := by
  generalize hr : Except.ok v = r at hm
  cases hm with
  | @accept l sockfd hb hl =>
      refine Or.inr ⟨l, sockfd, rfl, ?_⟩
      rw [runInLoop] at hr
      split at hr
      · obtain ⟨-, rfl⟩ := connectEstablished_ok hr.symm
        refine ⟨rfl, fun n hn => ?_⟩
        rw [setConn_loop]
        exact accepting_loop hn
      · cases hr
        exact ⟨rfl, fun n hn => accepting_loop hn⟩
  | shutdown =>
      cases hr
      exact Or.inl ⟨rfl, fun _ => setConn_loop _⟩
  | handleClose =>
      cases handleClose_ok hr.symm
      exact Or.inl ⟨rfl, fun _ => setConn_loop _⟩
  | closeCallback =>
      obtain ⟨_, -, hok⟩ := bind_eq_ok.mp hr.symm
      rw [runInLoop] at hok
      split at hok
      · obtain ⟨server, -, rfl⟩ := removeConnectionInLoop_ok hok
        exact Or.inl ⟨rfl, fun _ => rfl⟩
      · cases hok
        exact Or.inl ⟨rfl, fun _ => rfl⟩
  | @run l f rest hq hb =>
      cases f with
      | connectEstablished n =>
          obtain ⟨-, rfl⟩ := connectEstablished_ok hr.symm
          exact Or.inl ⟨rfl, fun _ => setConn_loop _⟩
      | connectDestroyed n =>
          cases connectDestroyed_ok hr.symm
          exact Or.inl ⟨rfl, fun _ => setConn_loop _⟩
      | removeConnectionInLoop n =>
          obtain ⟨server, -, rfl⟩ := removeConnectionInLoop_ok hr.symm
          exact Or.inl ⟨rfl, fun _ => rfl⟩
  | destroyItem hl hn =>
      rw [runInLoop] at hr
      split at hr
      · cases connectDestroyed_ok hr.symm
        exact Or.inl ⟨rfl, fun _ => setConn_loop _⟩
      · cases hr
        exact Or.inl ⟨rfl, fun _ => rfl⟩
  | destroyServer | serverDestroyed =>
      cases hr
      exact Or.inl ⟨rfl, fun _ => rfl⟩

/-- A connection that was there goes on from where it was, and a new one begins. -/
theorem World.Held.stage_step (hh : w.Held) (hp : Proper w a) (hm : Moves w a (.ok v))
    (hn : n < v.accepted) : (v.peers n).Stage := by
  have hfollows := follows_step hh.inv hp (not_again_of_ok hm) hm
  rw [peers_step hh.inv hm]
  rcases accepted_step hm with hsame | ⟨l, sockfd, rfl, hnew, -⟩
  · exact hfollows.stage (hh.stage n (hsame.accepted ▸ hn))
  · rw [hnew] at hn
    rcases Nat.lt_succ_iff_lt_or_eq.mp hn with hn | rfl
    · exact hfollows.stage (hh.stage n hn)
    · -- the first event makes the connection
      apply Event.Follows.stage hfollows.2
      show (Function.update w.peers w.accepted (Peer.new sockfd) w.accepted).Stage
      rw [Function.update_self]
      exact Peer.stage_new sockfd

/-- A step ends well and keeps what holds, or it is a `handleClose` behind the first. -/
theorem World.Held.step (hh : w.Held) (hp : Proper w a) (hm : Moves w a r) :
    Ends Held (fun e => w.Again a ∧ e = .tcp .handleCloseState) r := by
  by_cases ha : w.Again a
  · rw [again_error ha hm]
    exact ⟨ha, rfl⟩
  obtain ⟨v, rfl⟩ := hh.succeeds hp ha hm
  exact ⟨step_inv hh.inv hm hp.toKeeps, hh.listed.step hh.inv hp hm,
    fun n hn => hh.stage_step hp hm hn⟩

omit [DecidableEq L] in
theorem start_held (h : Start w) : w.Held where
  inv := start_inv h
  listed n hn := absurd hn (h.not_accepted n)
  stage n hn := absurd hn (h.not_accepted n)

/-! ## What is held -/

section

omit [DecidableEq L]

/-- What has been called and what is due, when both are. -/
theorem append_eq_pair {f g : Functor} {xs ys : List Functor} (h : xs ++ ys = [f, g])
    (hne : f ≠ g) : g ∈ xs ↔ ys = [] := by
  match xs with
  | [] =>
      rw [List.nil_append] at h
      simp [h]
  | [x] =>
      obtain ⟨rfl, rfl⟩ := List.cons.inj h
      simp [hne.symm]
  | [x, y] =>
      obtain ⟨-, h⟩ := List.cons.inj h
      obtain ⟨rfl, rfl⟩ := List.cons.inj h
      simp
  | x :: y :: z :: zs =>
      have hlength := congrArg List.length h
      simp at hlength

/-- When `connectDestroyed` has been called, nothing is due any more, and before that
something is, or the connection has not been removed. -/
theorem World.Inv.destroyed_iff (h : Inv w) (hn : n < w.accepted) :
    .connectDestroyed n ∈ w.mail.log ↔
      w.history n = [.connectEstablished n, .connectDestroyed n] ∧
        (w.mail.queue (w.loop n)).filter (Functor.isOf n) = [] := by
  have hmem : .connectDestroyed n ∈ w.mail.log ↔
      .connectDestroyed n ∈ w.mail.log.filter (Functor.isOf n) := by
    rw [List.mem_filter]
    simp
  have hsplit : w.mail.log.filter (Functor.isOf n) ++
      (w.mail.queue (w.loop n)).filter (Functor.isOf n) = w.history n := Mail.history_eq.symm
  rw [hmem]
  rcases h.history n hn with hhist | hhist
  · rw [hhist] at hsplit ⊢
    constructor
    · intro hlog
      have hbad : Functor.connectDestroyed n ∈ [Functor.connectEstablished n] := by
        rw [← hsplit]
        exact List.mem_append_left _ hlog
      simp at hbad
    · rintro ⟨⟨⟩, -⟩
  · rw [hhist] at hsplit ⊢
    rw [append_eq_pair hsplit (by rintro ⟨⟩)]
    simp

/-- A connection whose removal is due has not been destroyed. -/
theorem World.Inv.removals_history (h : Inv w) (hn : n < w.accepted) (hb : w.Bound)
    (hpos : 0 < w.removals n) : w.history n = [.connectEstablished n] :=
  ((h.attached (alive_of_bound h hb)).removing n hn hpos).2

/-- Whoever is listed is not to be destroyed yet. -/
theorem World.Inv.listed_history (h : Inv w) (hlisted : w.listed n = true) :
    w.history n = [.connectEstablished n] := by
  rw [listed] at hlisted
  cases hl : w.life with
  | alive =>
      rw [hl] at hlisted
      obtain ⟨e, he, rfl⟩ := List.mem_map.mp (of_decide_eq_true hlisted)
      exact ((h.attached hl).table e.1 e.2 (AList.mem_lookup_iff.mpr he)).2.2
  | destructing todo =>
      rw [hl] at hlisted
      exact ((h.todo todo hl).2 n (of_decide_eq_true hlisted)).2
  | destroyed =>
      rw [hl] at hlisted
      cases hlisted

end

omit [DecidableEq L] in
/-- The server holds a connection until its `connectDestroyed` has been called, and then no
longer. -/
theorem World.Held.owned_iff (hh : w.Held) (hn : n < w.accepted) :
    w.owned n = true ↔ .connectDestroyed n ∉ w.mail.log := by
  have h := hh.inv
  have hqueue : (w.mail.queue (w.loop n)).any (Functor.isOf n) = true ↔
      (w.mail.queue (w.loop n)).filter (Functor.isOf n) ≠ [] := by
    rw [ne_eq, List.filter_eq_nil_iff, List.any_eq_true]
    simp
  rw [h.destroyed_iff hn]
  simp only [owned, Bool.or_eq_true, decide_eq_true_eq, hqueue]
  constructor
  · rintro hown ⟨hboth, hnil⟩
    -- whatever holds the connection says that it is not to be destroyed
    have hone : w.history n = [.connectEstablished n] := by
      rcases hown with ((hlisted | hdue) | hremoval) | hclosing
      · exact h.listed_history hlisted
      · exact absurd hnil hdue
      · apply h.removals_history hn (Or.inl ⟨n, hremoval⟩)
        exact Nat.add_pos_left (List.count_pos_iff.mpr hremoval) _
      · apply h.removals_history hn (Or.inr ⟨_, n, hclosing⟩)
        rw [removals, if_pos hclosing]
        exact Nat.succ_pos _
    rw [hone] at hboth
    cases hboth
  · intro hnot
    rcases h.history n hn with hhist | hhist
    · exact Or.inl (Or.inl (Or.inl (hh.listed n hn hhist)))
    · exact Or.inl (Or.inl (Or.inr fun hnil => hnot ⟨hhist, hnil⟩))

end Zing.Net.ServerLoops
