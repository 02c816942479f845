import Zing.Net.ChannelOps
import Zing.Net.LoopPollers
import Zing.Net.ServerOwners

set_option autoImplicit false

/-! # The descriptors of a server's connections

The server of `Net/ServerOwners` with what is below it: each loop has a poller, which the
functions of a connection tell of its channel, and `~TcpConnection` closes the descriptor of a
connection that nobody holds any more. The kernel may give the number of a closed descriptor to
the next connection, while pollers find their channels by these numbers: `descriptors_safe` says
that this is safe.

A loop is not in the middle of its active channels here; the assertions of `Channel` about that,
and the channels that a loop has for itself, are in `Net/EventDispatch`.
-/

namespace Zing.Net.ServerSockets

open Zing.Lib
open ChannelOps (Update)
open LoopPollers (Registry Free)
open ServerLoops (Event Peer Proper)
open ServerLoops.World (peers Held)

/-! ## State -/

inductive Assertion
  | server (a : ServerLoops.Assertion)
  | poller (a : Poller.Assertion)
  /-- The assertion of `~TcpConnection`. -/
  | dtor (a : TcpConnection.Assertion)
  /-- The assertions of `~Channel`. -/
  | addedToLoop
  | hasChannel
  deriving DecidableEq, Repr

/-- `closed` are the connections that are no more; their descriptors have been closed. -/
structure World (L : Type) where
  server : ServerLoops.World L
  poller : L → Poller
  closed : List Nat

variable {L : Type}

/-- The channels of the connections have become `h`. -/
def setChannels (w : ServerLoops.World L) (h : Channels) : ServerLoops.World L :=
  { w with entry := fun n =>
      { w.entry n with conn := { (w.entry n).conn with channel := h n } } }

/-- What is told to a poller. -/
inductive Call
  | update (n : Nat)
  | remove (n : Nat)
  deriving DecidableEq, Repr

/-- `Channel::update` and `Channel::remove` in the functions of a connection. -/
def calls (w : ServerLoops.World L) : Event → List Call
  | .established n => [.update n]
  | .closed n => [.update n]
  -- `connectDestroyed` disables the channel of a connection that is still connected
  | .destroyed n => if (w.conn n).state = .kConnected then [.update n, .remove n] else [.remove n]
  | _ => []

namespace World

variable (s : World L)

/-- The channels of the connections, by their numbers. -/
def channels : Channels := fun n => (s.server.conn n).channel

variable [DecidableEq L]

/-- The poller of one loop changes, and with it indices of channels. -/
def setPoller (l : L) (r : Poller × Channels) : World L :=
  { s with
    server := setChannels s.server r.2
    poller := Function.update s.poller l r.1 }

/-- `Channel::update`: the poller of the loop of the connection is told. -/
def updateChannel (n : Nat) : Except Assertion (World L) := do
  let r ← nested .poller ((s.poller (s.server.loop n)).updateChannel n s.channels)
  .ok (s.setPoller (s.server.loop n) r)

/-- `Channel::remove`, likewise. -/
def removeChannel (n : Nat) : Except Assertion (World L) := do
  let r ← nested .poller ((s.poller (s.server.loop n)).removeChannel n s.channels)
  .ok (s.setPoller (s.server.loop n) r)

def call : Call → Except Assertion (World L)
  | .update n => s.updateChannel n
  | .remove n => s.removeChannel n

/-- A function of the connection changes what its channel watches. -/
def interest (n : Nat) (u : Update) : World L :=
  { s with server := s.server.setConn n { s.server.conn n with
      channel := u.apply (s.server.conn n).channel } }

/-- `~TcpConnection`, with `~Channel` and `~Socket` behind it. -/
def destroy (n : Nat) (onLoop : Bool) : Except Assertion (World L) := do
  nested .dtor (s.server.conn n).dtor
  check ((s.channels n).addedToLoop = false) .addedToLoop
  check (onLoop = true → (s.poller (s.server.loop n)).hasChannel n s.channels = false) .hasChannel
  -- `sockets::close(sockfd_)`
  .ok { s with closed := s.closed ++ [n] }

end World

/-! ## Runs -/

inductive Action (L : Type)
  | server (a : ServerLoops.Action L)
  /-- The connection changes what its channel watches, to write or to read. -/
  | interest (n : Nat) (u : Update)
  /-- The last `shared_ptr` goes, on the thread of the loop or on another. -/
  | destroy (n : Nat) (onLoop : Bool)

variable [DecidableEq L]

def step (s : World L) : Action L → Option (Except Assertion (World L))
  | .server a => (ServerLoops.step s.server a).map fun r => do
      let w ← nested .server r
      -- a poller looks at a channel as the functions leave it
      ((s.server.events a).flatMap (calls s.server)).foldlM (fun t c => t.call c)
        { s with server := w }
  | .interest n u =>
      if n < s.server.accepted ∧ n ∉ s.closed then
        some ((s.interest n u).updateChannel n)
      else none
  | .destroy n onLoop =>
      if n < s.server.accepted ∧ n ∉ s.closed ∧ s.server.owned n = false then
        some (s.destroy n onLoop)
      else none

/-- A server that has not accepted a connection, and new pollers. -/
structure Start (s : World L) : Prop where
  server : ServerLoops.Start s.server
  poller : ∃ usePoll : L → Bool, s.poller = fun l => Poller.newDefaultPoller (usePoll l)
  closed : s.closed = []

def runs : System (World L) (Action L) Assertion where
  init := Start
  step := step

/-! ## What is promised, and when -/

/-- The kernel gives no number to a connection that an open descriptor has, and the connection
changes what it watches while it is up. -/
structure Good (s : World L) (a : Action L) : Prop where
  server : ∀ b, a = .server b → Proper s.server b
  accept : ∀ l sockfd, a = .server (.accept l sockfd) →
    ∀ n < s.server.accepted, n ∉ s.closed → (s.channels n).fd ≠ sockfd
  interest : ∀ n u, a = .interest n u → (s.server.conn n).forceCloseTest = true

/-- `handleClose` of a connection that has been closed, or destroyed. -/
def World.Again (s : World L) (a : Action L) : Prop :=
  ∃ b, a = .server b ∧ s.server.Again b

/-- A poller has exactly the channels of its loop between `connectEstablished` and
`connectDestroyed`; their descriptors are open, and a descriptor that is open belongs to one
connection. A connection is there as long as the server holds it. -/
structure World.Safe (s : World L) : Prop where
  registered : ∀ l fd n, (s.poller l).channels.lookup fd = some n ↔
    n < s.server.accepted ∧ s.server.loop n = l ∧ (s.channels n).fd = fd ∧
      .connectEstablished n ∈ s.server.mail.log ∧ .connectDestroyed n ∉ s.server.mail.log
  closed : ∀ n ∈ s.closed, .connectDestroyed n ∈ s.server.mail.log ∧ s.server.owned n = false
  once : s.closed.Nodup
  apart : ∀ m n, m < s.server.accepted → n < s.server.accepted → m ∉ s.closed → n ∉ s.closed →
    (s.channels m).fd = (s.channels n).fd → m = n
  watched : ∀ l fd, (s.poller l).watches fd = true →
    ∃ n < s.server.accepted, n ∉ s.closed ∧ s.server.loop n = l ∧ (s.channels n).fd = fd

/-! ## The channels of the connections -/

/-- `connectEstablished` has been called, and `connectDestroyed` has not. -/
def Known (ps : Nat → Peer) (n : Nat) : Prop :=
  (ps n).established = true ∧ (ps n).destroyed = false

def channelsOf (ps : Nat → Peer) : Channels := fun n => (ps n).conn.channel

variable {s t u : World L} {w v x : ServerLoops.World L} {ps : Nat → Peer} {n : Nat} {e : Event}

omit [DecidableEq L] in
theorem channelsOf_peers : channelsOf s.server.peers = s.channels := rfl

/-- One connection changes, and its channel with it. -/
theorem channelsOf_update {p : Peer} : channelsOf (Function.update ps n p) =
    Function.update (channelsOf ps) n p.conn.channel := by
  funext m
  by_cases hm : m = n
  · subst hm
    simp [channelsOf]
  · simp [channelsOf, hm]

/-- No event but an accept changes a descriptor. -/
theorem fd_apply (he : ∀ sockfd, e ≠ .accepted n sockfd) :
    (channelsOf (e.apply ps) n).fd = (channelsOf ps n).fd := by
  have hupdate : ∀ (k : Nat) (p : Peer), p.conn.channel.fd = (ps k).conn.channel.fd →
      (channelsOf (Function.update ps k p) n).fd = (channelsOf ps n).fd := by
    intro k p hp
    by_cases hn : n = k
    · subst hn
      rw [channelsOf, Function.update_self]
      exact hp
    · rw [channelsOf, Function.update_of_ne hn]
      rfl
  cases e with
  | accepted k sockfd =>
      have hn : n ≠ k := by
        rintro rfl
        exact he sockfd rfl
      rw [channelsOf, Event.apply, Function.update_of_ne hn]
      rfl
  | established k => exact hupdate k _ rfl
  | shutdown k => exact hupdate k _ rfl
  | closed k => exact hupdate k _ rfl
  | destroyed k =>
      apply hupdate k
      show (Peer.removed (ps k).conn).channel.fd = _
      rw [Peer.removed, ServerLoops.World.disconnected]
      split <;> rfl

/-- What has been destroyed stays so. -/
theorem destroyed_apply (he : ∀ sockfd, e ≠ .accepted n sockfd)
    (hd : (ps n).destroyed = true) : (e.apply ps n).destroyed = true := by
  have hupdate : ∀ (k : Nat) (p : Peer), (p.destroyed = (ps k).destroyed ∨ p.destroyed = true) →
      (Function.update ps k p n).destroyed = true := by
    intro k p hp
    by_cases hn : n = k
    · subst hn
      rw [Function.update_self]
      exact hp.elim (fun h => h.trans hd) id
    · rw [Function.update_of_ne hn]
      exact hd
  cases e with
  | accepted k sockfd =>
      have hn : n ≠ k := by
        rintro rfl
        exact he sockfd rfl
      rw [Event.apply, Function.update_of_ne hn]
      exact hd
  | established k => exact hupdate k _ (Or.inl rfl)
  | shutdown k => exact hupdate k _ (Or.inl rfl)
  | closed k => exact hupdate k _ (Or.inl rfl)
  | destroyed k => exact hupdate k _ (Or.inr rfl)

/-! ## The pollers write indices -/

/-- Only indices of channels have changed, and none of a connection that is not established. -/
structure Reindexed (w v : ServerLoops.World L) : Prop where
  eq : ∃ h, v = setChannels w h
  index : ∀ n, ∃ k, (v.conn n).channel = { (w.conn n).channel with index := k }
  new : ∀ n, (w.peers n).established = false → (v.conn n).channel = (w.conn n).channel

section

omit [DecidableEq L]

/-- Nothing was written. -/
theorem reindexed_refl (w : ServerLoops.World L) : Reindexed w w where
  eq := ⟨fun n => (w.conn n).channel, rfl⟩
  index n := ⟨(w.conn n).channel.index, rfl⟩
  new _ _ := rfl

theorem Reindexed.trans (h₁ : Reindexed w v) (h₂ : Reindexed v x) : Reindexed w x := by
  obtain ⟨c₁, rfl⟩ := h₁.eq
  obtain ⟨c₂, rfl⟩ := h₂.eq
  refine ⟨⟨c₂, rfl⟩, ?_, ?_⟩
  · intro n
    obtain ⟨i, hi⟩ := h₁.index n
    obtain ⟨j, hj⟩ := h₂.index n
    exact ⟨j, by rw [hj, hi]⟩
  · intro n hn
    exact (h₂.new n hn).trans (h₁.new n hn)

/-- An index tells nothing of the life of a connection, -/
theorem Reindexed.established (h : Reindexed w v) (n : Nat) :
    (v.peers n).established = (w.peers n).established := by
  obtain ⟨c, rfl⟩ := h.eq
  rfl

/-- neither of its beginning nor of its end. -/
theorem Reindexed.destroyed (h : Reindexed w v) (n : Nat) :
    (v.peers n).destroyed = (w.peers n).destroyed := by
  obtain ⟨c, rfl⟩ := h.eq
  rfl

theorem Reindexed.accepted (h : Reindexed w v) : v.accepted = w.accepted := by
  obtain ⟨c, rfl⟩ := h.eq
  rfl

/-- And the descriptors stay. -/
theorem Reindexed.fd (h : Reindexed w v) (n : Nat) :
    (v.conn n).channel.fd = (w.conn n).channel.fd := by
  obtain ⟨k, hk⟩ := h.index n
  rw [hk]

/-- So the same connections are known to the pollers, -/
theorem Reindexed.known (h : Reindexed w v) (n : Nat) : Known v.peers n ↔ Known w.peers n := by
  rw [Known, h.established, h.destroyed]
  rfl

/-- What the invariant of the server says of a connection is not about its channel. -/
theorem inv_setChannels (hw : w.Inv) (h : Channels) : (setChannels w h).Inv where
  queued l f hf := (hw.queued l f hf).imp (Nat.le_refl _) (fun _ _ => rfl) rfl
  logged := hw.logged
  closing := hw.closing
  direct := hw.direct
  history := hw.history
  attached hl := ⟨(hw.attached hl).removals, (hw.attached hl).removing,
    (hw.attached hl).destroyed, (hw.attached hl).table⟩
  todo := hw.todo
  quiet := hw.quiet

/-- and who holds a connection is the same too. -/
theorem Reindexed.held (h : Reindexed w v) (hw : w.Held) : v.Held := by
  obtain ⟨c, rfl⟩ := h.eq
  refine ⟨inv_setChannels hw.inv c, hw.listed.congr rfl rfl rfl fun _ _ => rfl, ?_⟩
  intro n hn
  have hold := hw.stage n hn
  obtain ⟨k, hk⟩ := h.index n
  have hk' : c n = { (w.conn n).channel with index := k } := hk
  refine ⟨?_, hold.begun, hold.order, hold.gone, ?_, ?_⟩
  · intro hnew
    refine ⟨(hold.new hnew).1, ?_⟩
    obtain ⟨fd, hfd⟩ := (hold.new hnew).2
    exact ⟨fd, (h.new n hnew).trans hfd⟩
  · intro hs
    show (c n).isNoneEvent = true
    rw [hk']
    exact hold.closed hs
  · show (c n).addedToLoop = _
    rw [hk']
    exact hold.added

end

/-! ## What the pollers are told -/

/-- The pollers can be told, and then have the channels that are known. -/
def Tells (t : World L) (cs : List Call) : Prop :=
  ∃ u, cs.foldlM (fun t c => t.call c) t = .ok u ∧
    Registry u.poller u.channels u.server.loop (Known t.server.peers) ∧
    Reindexed t.server u.server ∧ u.closed = t.closed

variable {h : Channels} {known : Nat → Prop}

/-- The poller takes the update of a known channel, or of one whose descriptor is free. -/
theorem updateChannel_spec {c : Channel} (hr : Registry t.poller h t.server.loop known)
    (hs : t.channels = Function.update h n c) (hcan : known n ∨ Free h t.server.loop known n)
    (hfd : c.fd = (h n).fd) (hidx : c.index = (h n).index)
    (hnew : ¬ known n → c.isNoneEvent = false) (hest : (t.server.peers n).established = true) :
    ∃ u, t.updateChannel n = .ok u ∧
      Registry u.poller u.channels u.server.loop (fun a => a = n ∨ known a) ∧
      Reindexed t.server u.server ∧ u.closed = t.closed := by
  obtain ⟨p', h', hok, hreg, hself, hothers⟩ := hr.update hcan hfd hidx hnew
  have hold : ∀ a, a ≠ n → h' a = t.channels a := by
    intro a ha
    rw [hothers a ha, hs, Function.update_of_ne ha]
  refine ⟨t.setPoller (t.server.loop n) (p', h'), ?_, hreg, ⟨⟨h', rfl⟩, ?_, ?_⟩, rfl⟩
  · rw [World.updateChannel, hs, hok]
    rfl
  · intro a
    by_cases ha : a = n
    · subst ha
      obtain ⟨k, hk⟩ := hself
      have hc : t.channels a = c := by rw [hs, Function.update_self]
      exact ⟨k, hk.trans (by rw [← hc]; rfl)⟩
    · exact ⟨(t.channels a).index, hold a ha⟩
  · intro a ha
    apply hold
    rintro rfl
    rw [hest] at ha
    cases ha

/-- It takes the removal of a known channel that watches nothing. -/
theorem removeChannel_spec (hr : Registry t.poller t.channels t.server.loop known)
    (hn : known n) (hnone : (t.channels n).isNoneEvent = true)
    (hest : ∀ a, known a → (t.server.peers a).established = true) :
    ∃ u, t.removeChannel n = .ok u ∧
      Registry u.poller u.channels u.server.loop (fun a => known a ∧ a ≠ n) ∧
      Reindexed t.server u.server ∧ u.closed = t.closed := by
  obtain ⟨p', h', hok, hreg, hindex, hothers⟩ := hr.remove hn hnone
  refine ⟨t.setPoller (t.server.loop n) (p', h'), ?_, hreg, ⟨⟨h', rfl⟩, hindex, ?_⟩, rfl⟩
  · rw [World.removeChannel, hok]
    rfl
  · intro a ha
    apply hothers
    intro hk
    rw [hest a hk] at ha
    cases ha

omit [DecidableEq L] in
/-- `Registry` depends on who is known, not on how that is said. -/
theorem same_registry {known' : Nat → Prop} {poller : L → Poller} {loop : Nat → L}
    (hr : Registry poller h loop known) (hknown : ∀ a, known' a ↔ known a) :
    Registry poller h loop known' :=
  hr.congr hknown fun _ _ => ⟨rfl, rfl, rfl, rfl⟩

/-- A step that leaves the connections alone tells the pollers nothing. -/
theorem tells_nothing (hr : Registry t.poller (channelsOf ps) t.server.loop (Known ps))
    (ht : t.server.peers = ps) : Tells t [] := by
  subst ht
  exact ⟨t, rfl, hr, reindexed_refl _, rfl⟩

/-- `shutdown` does nothing to the channel. -/
theorem tells_shutdown (hr : Registry t.poller (channelsOf ps) t.server.loop (Known ps))
    (ht : t.server.peers = (Event.shutdown n).apply ps) : Tells t [] := by
  have hsame : ∀ b, (t.server.peers b).established = (ps b).established ∧
      (t.server.peers b).destroyed = (ps b).destroyed ∧
      channelsOf t.server.peers b = channelsOf ps b := by
    intro b
    rw [ht, Event.apply, channelsOf_update]
    by_cases hb : b = n
    · subst hb
      rw [Function.update_self, Function.update_self]
      exact ⟨rfl, rfl, rfl⟩
    · rw [Function.update_of_ne hb, Function.update_of_ne hb]
      exact ⟨rfl, rfl, rfl⟩
  have hreg : Registry t.poller (channelsOf t.server.peers) t.server.loop
      (Known t.server.peers) := by
    refine hr.congr (fun b => ?_) fun b _ => ?_
    · rw [Known, (hsame b).1, (hsame b).2.1]
      rfl
    · rw [(hsame b).2.2]
      exact ⟨rfl, rfl, rfl, rfl⟩
  exact tells_nothing hreg rfl

/-- `connectEstablished` registers the channel. -/
theorem tells_established
    (hr : Registry t.poller (channelsOf ps) t.server.loop (Known ps))
    (ht : t.server.peers = (Event.established n).apply ps) (hstage : (ps n).Stage)
    (hnew : (ps n).established = false)
    (hfree : ∀ a, Known ps a → t.server.loop a = t.server.loop n →
      (channelsOf ps a).fd ≠ (channelsOf ps n).fd) : Tells t [.update n] := by
  have hself : t.server.peers n = (ps n).establish := by
    rw [ht, Event.apply, Function.update_self]
  have hchannels : t.channels = Function.update (channelsOf ps) n
      (ps n).establish.conn.channel := by
    rw [← channelsOf_peers, ht]
    exact channelsOf_update
  have hindex : (channelsOf ps n).index = -1 := by
    obtain ⟨fd, hfd⟩ := (hstage.new hnew).2
    rw [channelsOf, hfd]
    rfl
  have hloud : (ps n).establish.conn.channel.isNoneEvent = false := by
    obtain ⟨fd, hfd⟩ := (hstage.new hnew).2
    rw [Peer.establish, hfd]
    rfl
  obtain ⟨u, hok, hreg, hindexed, hclosed⟩ := updateChannel_spec hr hchannels
    (Or.inr ⟨hindex, hfree⟩) rfl rfl (fun _ => hloud) (by rw [hself]; rfl)
  refine ⟨u, ?_, same_registry hreg fun a => ?_, hindexed, hclosed⟩
  · show (t.updateChannel n >>= _) = _
    rw [hok]
    rfl
  · by_cases ha : a = n
    · subst ha
      have hnot := hstage.not_destroyed (by rw [(hstage.new hnew).1]; rintro ⟨⟩)
      rw [Known, hself]
      simp [Peer.establish, hnot]
    · rw [Known, ht, Event.apply, Function.update_of_ne ha]
      simp [ha, Known]

/-- `handleClose` disables the channel. -/
theorem tells_closed (hr : Registry t.poller (channelsOf ps) t.server.loop (Known ps))
    (ht : t.server.peers = (Event.closed n).apply ps) (hn : Known ps n) :
    Tells t [.update n] := by
  have hself : t.server.peers n = (ps n).close := by
    rw [ht, Event.apply, Function.update_self]
  have hchannels : t.channels = Function.update (channelsOf ps) n (ps n).close.conn.channel := by
    rw [← channelsOf_peers, ht]
    exact channelsOf_update
  obtain ⟨u, hok, hreg, hindexed, hclosed⟩ := updateChannel_spec hr hchannels (Or.inl hn)
    rfl rfl (fun hnot => absurd hn hnot) (by rw [hself]; exact hn.1)
  refine ⟨u, ?_, same_registry hreg fun a => ?_, hindexed, hclosed⟩
  · show (t.updateChannel n >>= _) = _
    rw [hok]
    rfl
  · by_cases ha : a = n
    · subst ha
      rw [Known, hself]
      simp only [true_or, iff_true]
      exact hn
    · rw [Known, ht, Event.apply, Function.update_of_ne ha]
      simp [ha, Known]

/-! `connectDestroyed` disables the channel if the connection is up, and removes it. -/

omit [DecidableEq L] in
/-- `connectDestroyed` changes one channel. -/
theorem channels_destroyed (ht : t.server.peers = (Event.destroyed n).apply ps) :
    t.channels = Function.update (channelsOf ps) n (ps n).destroy.conn.channel := by
  rw [← channelsOf_peers, ht]
  exact channelsOf_update

omit [DecidableEq L] in
/-- Behind it the channel is unknown, and no other one. -/
theorem known_destroyed (ht : t.server.peers = (Event.destroyed n).apply ps) (b : Nat) :
    Known t.server.peers b ↔ Known ps b ∧ b ≠ n := by
  rw [Known, ht, Event.apply]
  by_cases hb : b = n
  · subst hb
    rw [Function.update_self]
    simp [Peer.destroy]
  · rw [Function.update_of_ne hb]
    simp [hb, Known]

omit [DecidableEq L] in
theorem established_destroyed (ht : t.server.peers = (Event.destroyed n).apply ps)
    (hn : Known ps n) (b : Nat) (hb : b = n ∨ Known ps b) :
    (t.server.peers b).established = true := by
  rw [ht, Event.apply]
  by_cases hbn : b = n
  · subst hbn
    rw [Function.update_self]
    exact hn.1
  · rw [Function.update_of_ne hbn]
    exact (hb.resolve_left hbn).1

/-- It was still connected: the channel is disabled first, and then removed. -/
theorem tells_destroyed_connected
    (hr : Registry t.poller (channelsOf ps) t.server.loop (Known ps))
    (ht : t.server.peers = (Event.destroyed n).apply ps) (hn : Known ps n)
    (hup : (ps n).conn.state = .kConnected) : Tells t [.update n, .remove n] := by
  have hchannels := channels_destroyed ht
  have hest := established_destroyed ht hn
  have hc : (ps n).destroy.conn.channel =
      { (ps n).conn.channel.disableAll with addedToLoop := false } := by
    show (Peer.removed (ps n).conn).channel = _
    rw [Peer.removed, ServerLoops.World.disconnected, if_pos hup]
    rfl
  obtain ⟨u, hok, hreg, hindexed, hclosed⟩ := updateChannel_spec hr hchannels (Or.inl hn)
    (by rw [hc]; rfl) (by rw [hc]; rfl) (fun hnot => absurd hn hnot) (hest n (Or.inl rfl))
  -- only the index is new to the channel
  have hnone : (u.channels n).isNoneEvent = true := by
    obtain ⟨k, hk⟩ := hindexed.index n
    have hold : t.channels n = _ := congrFun hchannels n
    rw [Function.update_self, hc] at hold
    show ((u.server.conn n).channel).isNoneEvent = true
    rw [hk]
    show (t.channels n).isNoneEvent = true
    rw [hold]
    rfl
  obtain ⟨u', hok', hreg', hindexed', hclosed'⟩ := removeChannel_spec hreg (Or.inl rfl) hnone
    fun b hb => (hindexed.established b).trans (hest b hb)
  refine ⟨u', ?_, same_registry hreg' fun b => ?_, hindexed.trans hindexed',
    hclosed'.trans hclosed⟩
  · show (t.updateChannel n >>= _) = _
    rw [hok]
    show (u.removeChannel n >>= _) = _
    rw [hok']
    rfl
  · rw [known_destroyed ht]
    constructor
    · rintro ⟨hk, hb⟩
      exact ⟨Or.inr hk, hb⟩
    · rintro ⟨hk, hb⟩
      exact ⟨hk.resolve_left hb, hb⟩

/-- It was closed, so the channel watches nothing already. -/
theorem tells_destroyed_closed
    (hr : Registry t.poller (channelsOf ps) t.server.loop (Known ps))
    (ht : t.server.peers = (Event.destroyed n).apply ps) (hn : Known ps n)
    (hdown : (ps n).conn.state = .kDisconnected)
    (hnone : (ps n).conn.channel.isNoneEvent = true) : Tells t [.remove n] := by
  have hchannels := channels_destroyed ht
  have hc : (ps n).destroy.conn.channel =
      { (ps n).conn.channel with addedToLoop := false } := by
    show (Peer.removed (ps n).conn).channel = _
    rw [Peer.removed, ServerLoops.World.disconnected, if_neg (by rw [hdown]; rintro ⟨⟩)]
  have hsame : Registry t.poller t.channels t.server.loop (Known ps) := by
    apply hr.congr fun _ => Iff.rfl
    intro b _
    rw [hchannels]
    by_cases hb : b = n
    · subst hb
      rw [Function.update_self, hc]
      exact ⟨rfl, rfl, rfl, rfl⟩
    · rw [Function.update_of_ne hb]
      exact ⟨rfl, rfl, rfl, rfl⟩
  obtain ⟨u, hok, hreg, hindexed, hclosed⟩ := removeChannel_spec hsame hn
    (by rw [hchannels, Function.update_self, hc]; exact hnone)
    fun b hb => established_destroyed ht hn b (Or.inr hb)
  refine ⟨u, ?_, same_registry hreg (known_destroyed ht), hindexed, hclosed⟩
  show (t.removeChannel n >>= _) = _
  rw [hok]
  rfl

/-- One of the two is the case. -/
theorem tells_destroyed (hr : Registry t.poller (channelsOf ps) t.server.loop (Known ps))
    (ht : t.server.peers = (Event.destroyed n).apply ps) (hn : Known ps n)
    (hs : (ps n).conn.state = .kConnected ∨
      (ps n).conn.state = .kDisconnected ∧ (ps n).conn.channel.isNoneEvent = true) :
    Tells t (if (ps n).conn.state = .kConnected then [.update n, .remove n]
      else [.remove n]) := by
  split
  · rename_i hup
    exact tells_destroyed_connected hr ht hn hup
  · rename_i hup
    obtain ⟨hdown, hnone⟩ := hs.resolve_left hup
    exact tells_destroyed_closed hr ht hn hdown hnone

/-! ## The invariant -/

/-- The server and its connections are in order, and the pollers have the channels of the
connections between `connectEstablished` and `connectDestroyed`. A closed descriptor was that of a
destroyed connection, and was closed once. Of the connections that are left no two have one
descriptor. -/
structure Inv (s : World L) : Prop where
  held : s.server.Held
  registry : Registry s.poller s.channels s.server.loop (Known s.server.peers)
  closed : ∀ n ∈ s.closed, n < s.server.accepted ∧ (s.server.peers n).destroyed = true
  once : s.closed.Nodup
  apart : ∀ m n, m < s.server.accepted → n < s.server.accepted → m ∉ s.closed → n ∉ s.closed →
    (s.channels m).fd = (s.channels n).fd → m = n

omit [DecidableEq L] in
/-- The pollers have been told; the rest of the invariant is the same behind it. -/
theorem Reindexed.inv (h : Reindexed t.server u.server) (hclosed : u.closed = t.closed)
    (hreg : Registry u.poller u.channels u.server.loop (Known t.server.peers))
    (hheld : t.server.Held)
    (hgone : ∀ n ∈ t.closed, n < t.server.accepted ∧ (t.server.peers n).destroyed = true)
    (honce : t.closed.Nodup)
    (hapart : ∀ m n, m < t.server.accepted → n < t.server.accepted → m ∉ t.closed →
      n ∉ t.closed → (t.channels m).fd = (t.channels n).fd → m = n) : Inv u where
  held := h.held hheld
  registry := same_registry hreg h.known
  closed n hn := by
    rw [hclosed] at hn
    rw [h.accepted, h.destroyed]
    exact hgone n hn
  once := by
    rw [hclosed]
    exact honce
  apart := by
    rw [h.accepted, hclosed]
    intro m n hm hn hmc hnc heq
    exact hapart m n hm hn hmc hnc ((h.fd m).symm.trans (heq.trans (h.fd n)))

omit [DecidableEq L] in
/-- Nothing has been called for a connection that has not been accepted. -/
theorem known_accepted (hw : w.Inv) (hn : Known w.peers n) : n < w.accepted :=
  hw.logged n ⟨.connectEstablished n, of_decide_eq_true hn.1, by simp⟩

omit [DecidableEq L] in
/-- A descriptor that is free on the loops of all known channels. -/
theorem Inv.free (h : Inv s) (hn : n < s.server.accepted)
    (hnew : (s.server.peers n).established = false) :
    ∀ a, Known s.server.peers a → (s.channels a).fd ≠ (s.channels n).fd := by
  intro a ha heq
  have hopen : ∀ b, (s.server.peers b).destroyed = false → b ∉ s.closed := by
    intro b hb hmem
    rw [(h.closed b hmem).2] at hb
    cases hb
  have hnot : (s.server.peers n).destroyed = false := by
    by_contra hne
    have hest := (h.held.stage n hn).order (by simpa using hne)
    rw [hnew] at hest
    cases hest
  have hsame := h.apart a n (known_accepted h.held.inv ha) hn (hopen a ha.2) (hopen n hnot) heq
  subst hsame
  exact absurd (hnew.symm.trans ha.1) (by rintro ⟨⟩)

/-! ## A step of the server -/

variable {a : ServerLoops.Action L} {es : List Event}
  {r : Except ServerLoops.Assertion (ServerLoops.World L)}

/-- Only `accept` gives a connection its descriptor. -/
theorem fold_fd (he : ∀ sockfd, .accepted n sockfd ∉ es) :
    (channelsOf (es.foldl Event.apply ps) n).fd = (channelsOf ps n).fd := by
  induction es generalizing ps with
  | nil => rfl
  | cons e es ih =>
      rw [List.foldl_cons, ih fun fd hmem => he fd (List.mem_cons_of_mem _ hmem)]
      apply fd_apply
      rintro fd rfl
      exact he fd List.mem_cons_self

/-- What is destroyed stays destroyed. -/
theorem fold_destroyed (he : ∀ sockfd, .accepted n sockfd ∉ es)
    (hd : (ps n).destroyed = true) : (es.foldl Event.apply ps n).destroyed = true := by
  induction es generalizing ps with
  | nil => exact hd
  | cons e es ih =>
      apply ih fun fd hmem => he fd (List.mem_cons_of_mem _ hmem)
      apply destroyed_apply _ hd
      rintro fd rfl
      exact he fd List.mem_cons_self

/-- Only the connection that comes next is accepted. -/
theorem events_accepted {sockfd : Nat} (he : .accepted n sockfd ∈ w.events a) :
    n = w.accepted := by
  cases a with
  | accept l fd =>
      rcases List.mem_cons.mp he with heq | he
      · cases heq
        rfl
      · split at he
        · cases List.mem_singleton.mp he
        · cases he
  | run l =>
      simp only [ServerLoops.World.events] at he
      split at he
      · cases List.mem_singleton.mp he
      · cases List.mem_singleton.mp he
      · cases he
  | destroyItem k =>
      simp only [ServerLoops.World.events] at he
      split at he
      · cases List.mem_singleton.mp he
      · cases he
  | shutdown k | handleClose k => cases List.mem_singleton.mp he
  | closeCallback | destroyServer | serverDestroyed => cases he

omit [DecidableEq L] in
/-- A connection that is up is known. -/
theorem known_up (hw : w.Held) (hn : n < w.accepted)
    (hup : (w.peers n).conn.forceCloseTest = true) : Known w.peers n := by
  have hs : (w.peers n).conn.state = .kConnected ∨ (w.peers n).conn.state = .kDisconnecting := by
    simpa [TcpConnection.forceCloseTest] using hup
  refine ⟨(hw.stage n hn).is_established ?_, (hw.stage n hn).not_destroyed ?_⟩
  · rcases hs with hs | hs <;> rw [hs] <;> rintro ⟨⟩
  · rcases hs with hs | hs <;> rw [hs] <;> rintro ⟨⟩

omit [DecidableEq L] in
/-- A connection that a poller knows has not been closed. -/
theorem not_closed (h : Inv s) (hn : Known s.server.peers n) : n ∉ s.closed := by
  intro hmem
  exact absurd (hn.2.symm.trans (h.closed n hmem).2) (by rintro ⟨⟩)

omit [DecidableEq L] in
/-- A connection whose `connectDestroyed` is due. -/
theorem known_due (hw : w.Inv) (hn : n < w.accepted) (hest : (w.peers n).established = true)
    (hdue : .connectDestroyed n ∈ w.mail.queue (w.loop n) ∨
      w.history n = [.connectEstablished n]) : Known w.peers n := by
  refine ⟨hest, decide_eq_false fun hlog => ?_⟩
  obtain ⟨hboth, hnil⟩ := (hw.destroyed_iff hn).mp hlog
  rcases hdue with hqueue | hone
  · have hmem := List.mem_filter.mpr ⟨hqueue, (by simp : (ServerLoops.Functor.connectDestroyed
      n).isOf n = true)⟩
    rw [hnil] at hmem
    cases hmem
  · rw [hone] at hboth
    cases hboth

/-- The registry, with the loops behind the step. -/
theorem Inv.behind (h : Inv s) (hm : ServerLoops.Moves s.server a (.ok v)) :
    Registry s.poller (channelsOf s.server.peers) v.loop (Known s.server.peers) := by
  apply h.registry.congr fun _ => Iff.rfl
  intro b hb
  refine ⟨?_, rfl, rfl, rfl⟩
  rcases ServerLoops.accepted_step hm with hsame | ⟨_, _, -, -, hloop⟩
  · exact hsame.loop b
  · exact hloop b (known_accepted h.held.inv hb)

omit [DecidableEq L] in
/-- A new connection is not known yet. -/
theorem new_known {sockfd : Nat} (b : Nat) :
    Known ((Event.accepted w.accepted sockfd).apply w.peers) b ↔
      b ≠ w.accepted ∧ Known w.peers b := by
  by_cases hb : b = w.accepted
  · subst hb
    rw [Known, Event.apply, Function.update_self]
    simp [Peer.new]
  · rw [Known, Event.apply, Function.update_of_ne hb]
    simp [hb, Known]

omit [DecidableEq L] in
/-- A new connection is not known to its poller yet. -/
theorem registry_accepted (hw : w.Inv) {poller : L → Poller} {loop : Nat → L}
    (hr : Registry poller (channelsOf w.peers) loop (Known w.peers)) (sockfd : Nat) :
    Registry poller (channelsOf ((Event.accepted w.accepted sockfd).apply w.peers)) loop
      (Known ((Event.accepted w.accepted sockfd).apply w.peers)) := by
  have hne : ∀ b, Known w.peers b → b ≠ w.accepted := by
    rintro b hb rfl
    exact Nat.lt_irrefl _ (known_accepted hw hb)
  apply hr.congr
  · intro b
    rw [new_known]
    exact ⟨And.right, fun hb => ⟨hne b hb, hb⟩⟩
  · intro b hb
    rw [Event.apply, channelsOf_update, Function.update_of_ne (hne b hb)]
    exact ⟨rfl, rfl, rfl, rfl⟩

/-- What a step of the server tells the pollers, they can take. -/
theorem Inv.tells (h : Inv s) (hp : Proper s.server a)
    (hfresh : ∀ l sockfd, a = .accept l sockfd →
      ∀ n < s.server.accepted, n ∉ s.closed → (s.channels n).fd ≠ sockfd)
    (hm : ServerLoops.Moves s.server a (.ok v)) :
    Tells { s with server := v } ((s.server.events a).flatMap (calls s.server)) := by
  have hpeers := ServerLoops.peers_step h.held.inv hm
  have ha := ServerLoops.not_again_of_ok hm
  have hfollows := ServerLoops.follows_step h.held.inv hp ha hm
  have hr := h.behind hm
  generalize hok : Except.ok v = r at hm
  cases hm with
  | @accept l sockfd hb hl =>
      have hnew := registry_accepted h.held.inv hr sockfd
      simp only [ServerLoops.World.events] at hpeers ⊢
      split at hpeers
      · rename_i hbase
        rw [if_pos hbase]
        apply tells_established (t := { s with server := v }) hnew hpeers
        · rw [Event.apply, Function.update_self]
          exact Peer.stage_new sockfd
        · rw [Event.apply, Function.update_self]
          rfl
        · intro b hb _ heq
          obtain ⟨hne, hb⟩ := (new_known b).mp hb
          rw [Event.apply, channelsOf_update, Function.update_self,
            Function.update_of_ne hne] at heq
          exact hfresh l sockfd rfl b (known_accepted h.held.inv hb) (not_closed h hb) heq
      · rename_i hbase
        rw [if_neg hbase]
        exact tells_nothing (t := { s with server := v }) hnew hpeers
  | shutdown => exact tells_shutdown (t := { s with server := v }) hr hpeers
  | @handleClose n hn hb hc =>
      have hup := ServerLoops.up_of_not_again ha hc
      exact tells_closed (t := { s with server := v }) hr hpeers (known_up h.held hn hup)
  | @run l f rest hq hb =>
      have hf := h.held.inv.queued l f (by rw [hq]; exact List.mem_cons_self)
      simp only [ServerLoops.World.events, hq] at hpeers hfollows ⊢
      cases f with
      | connectEstablished n =>
          apply tells_established (t := { s with server := v }) hr hpeers
            (h.held.stage n hf.1) hfollows.1
          intro b hb _
          exact h.free hf.1 hfollows.1 b hb
      | connectDestroyed n =>
          have hqueue : .connectDestroyed n ∈ s.server.mail.queue (s.server.loop n) := by
            rw [hf.2, hq]
            exact List.mem_cons_self
          have hn := known_due h.held.inv hf.1 hfollows.1.1 (Or.inl hqueue)
          have htold := tells_destroyed (t := { s with server := v }) hr hpeers hn
            (h.held.destroyable hf.1 hfollows.1)
          rw [List.flatMap_singleton]
          exact htold
      | removeConnectionInLoop n => exact tells_nothing (t := { s with server := v }) hr hpeers
  | @destroyItem todo n hl hn =>
      obtain ⟨hlt, hone⟩ := (h.held.inv.todo todo hl).2 n hn
      simp only [ServerLoops.World.events] at hpeers hfollows ⊢
      split at hpeers
      · rename_i hbase
        rw [if_pos hbase] at hfollows ⊢
        have hk := known_due h.held.inv hlt hfollows.1.1 (Or.inr hone)
        have htold := tells_destroyed (t := { s with server := v }) hr hpeers hk
          (h.held.destroyable hlt hfollows.1)
        rw [List.flatMap_singleton]
        exact htold
      · rename_i hbase
        rw [if_neg hbase]
        exact tells_nothing (t := { s with server := v }) hr hpeers
  | closeCallback | destroyServer | serverDestroyed =>
      exact tells_nothing (t := { s with server := v }) hr hpeers

/-- The descriptor of a connection stays the same. -/
theorem Inv.same_fd (h : Inv s) (hm : ServerLoops.Moves s.server a (.ok v))
    (hn : n < s.server.accepted) : (channelsOf v.peers n).fd = (s.channels n).fd := by
  rw [ServerLoops.peers_step h.held.inv hm,
    fold_fd fun sockfd he => Nat.ne_of_lt hn (events_accepted he)]
  rfl

/-- The new connection has the descriptor that was accepted. -/
theorem Inv.new_fd {l : L} {sockfd : Nat} (h : Inv s)
    (hm : ServerLoops.Moves s.server (.accept l sockfd) (.ok v)) :
    (channelsOf v.peers s.server.accepted).fd = sockfd := by
  rw [ServerLoops.peers_step h.held.inv hm]
  show (channelsOf (List.foldl Event.apply (Function.update s.server.peers
    s.server.accepted (Peer.new sockfd)) _) s.server.accepted).fd = sockfd
  rw [fold_fd]
  · rw [channelsOf_update, Function.update_self]
    rfl
  · -- it may be established at once, but it is not accepted again
    intro fd he
    split at he
    · cases List.mem_singleton.mp he
    · cases he

/-- The new descriptor is not that of another connection. -/
theorem Inv.apart_step (h : Inv s) (hfresh : ∀ l sockfd, a = .accept l sockfd →
      ∀ n < s.server.accepted, n ∉ s.closed → (s.channels n).fd ≠ sockfd)
    (hm : ServerLoops.Moves s.server a (.ok v)) (m n : Nat) (hm' : m < v.accepted)
    (hn' : n < v.accepted) (hmc : m ∉ s.closed) (hnc : n ∉ s.closed)
    (heq : (channelsOf v.peers m).fd = (channelsOf v.peers n).fd) : m = n := by
  rcases ServerLoops.accepted_step hm with hloops | ⟨l, sockfd, rfl, hnew, -⟩
  · rw [hloops.accepted] at hm' hn'
    rw [h.same_fd hm hm', h.same_fd hm hn'] at heq
    exact h.apart m n hm' hn' hmc hnc heq
  · have hself := h.new_fd hm
    rw [hnew] at hm' hn'
    rcases Nat.lt_succ_iff_lt_or_eq.mp hm' with hm' | rfl
    · rcases Nat.lt_succ_iff_lt_or_eq.mp hn' with hn' | rfl
      · rw [h.same_fd hm hm', h.same_fd hm hn'] at heq
        exact h.apart m n hm' hn' hmc hnc heq
      · rw [h.same_fd hm hm', hself] at heq
        exact absurd heq (hfresh l sockfd rfl m hm' hmc)
    · rcases Nat.lt_succ_iff_lt_or_eq.mp hn' with hn' | rfl
      · rw [h.same_fd hm hn', hself] at heq
        exact absurd heq.symm (hfresh l sockfd rfl n hn' hnc)
      · rfl

/-- The pollers are told what the server does, and no assertion of theirs fails. -/
theorem Inv.server (h : Inv s) (hg : Good s (.server a))
    (hm : ServerLoops.Moves s.server a r) :
    Ends Inv (fun e => s.Again (.server a) ∧ e = .server (.tcp .handleCloseState))
      (nested .server r >>= fun w =>
        ((s.server.events a).flatMap (calls s.server)).foldlM (fun t c => t.call c)
          { s with server := w }) := by
  have hp := hg.server a rfl
  by_cases ha : s.server.Again a
  · rw [ServerLoops.again_error ha hm]
    exact ⟨⟨a, rfl, ha⟩, rfl⟩
  obtain ⟨v, rfl⟩ := h.held.succeeds hp ha hm
  have hv : v.Held := h.held.step hp hm
  have hfresh : ∀ l sockfd, a = .accept l sockfd →
      ∀ n < s.server.accepted, n ∉ s.closed → (s.channels n).fd ≠ sockfd := by
    rintro l sockfd rfl
    exact hg.accept l sockfd rfl
  obtain ⟨u, hok, hreg, hindexed, hclosed⟩ := h.tells hp hfresh hm
  show Ends Inv _ (List.foldlM _ _ _)
  rw [hok]
  refine hindexed.inv hclosed hreg hv ?_ h.once (h.apart_step hfresh hm)
  intro n hn
  obtain ⟨hlt, hd⟩ := h.closed n hn
  have hle : s.server.accepted ≤ v.accepted := by
    rcases ServerLoops.accepted_step hm with hsame | ⟨_, _, -, hnew, -⟩
    · exact Nat.le_of_eq hsame.accepted.symm
    · exact hnew ▸ Nat.le_succ _
  refine ⟨Nat.lt_of_lt_of_le hlt hle, ?_⟩
  show (v.peers n).destroyed = true
  rw [ServerLoops.peers_step h.held.inv hm]
  exact fold_destroyed (fun sockfd he => Nat.ne_of_lt hlt (events_accepted he)) hd

/-! ## The other steps -/

omit [DecidableEq L] in
/-- What a connection that is up watches is nothing to the server. -/
theorem held_interest (hw : w.Held) (hn : n < w.accepted)
    (hup : (w.conn n).forceCloseTest = true) {c : Channel} (hc : c.addedToLoop = true) :
    (w.setConn n { w.conn n with channel := c }).Held := by
  have hk := known_up hw hn hup
  refine ⟨hw.inv.setConn id, hw.listed.setConn _, ?_⟩
  intro m hm
  have hold := hw.stage m hm
  rw [ServerLoops.peers_setConn]
  by_cases hmn : m = n
  · subst hmn
    rw [Function.update_self]
    refine ⟨?_, hold.begun, hold.order, hold.gone, ?_, ?_⟩
    · intro hnew
      exact absurd (hk.1.symm.trans hnew) (by rintro ⟨⟩)
    · intro hs
      have hdown : (w.conn m).state = .kDisconnected := hs
      rw [TcpConnection.forceCloseTest, hdown] at hup
      cases hup
    · show c.addedToLoop = ((w.peers m).established && !(w.peers m).destroyed)
      rw [hc, hk.1, hk.2]
      rfl
  · rw [Function.update_of_ne hmn]
    exact hold

theorem apply_addedToLoop (f : Update) (c : Channel) : (f.apply c).addedToLoop = true := by
  cases f <;> rfl

/-- A connection that is up may change what it watches. -/
theorem Inv.interest (h : Inv s) (hn : n < s.server.accepted)
    (hup : (s.server.conn n).forceCloseTest = true) (f : Update) :
    Ends Inv (fun _ => False) ((s.interest n f).updateChannel n) := by
  have hknown := known_up h.held hn hup
  have hheld : (s.interest n f).server.Held :=
    held_interest h.held hn hup (apply_addedToLoop f _)
  have hpeers : (s.interest n f).server.peers = Function.update s.server.peers n
      { s.server.peers n with conn := { s.server.conn n with
          channel := f.apply (s.channels n) } } := ServerLoops.peers_setConn _
  have hchannels : (s.interest n f).channels =
      Function.update s.channels n (f.apply (s.channels n)) := by
    rw [← channelsOf_peers, hpeers]
    exact channelsOf_update
  have hr : Registry (s.interest n f).poller s.channels (s.interest n f).server.loop
      (Known s.server.peers) :=
    h.registry.congr (fun _ => Iff.rfl) fun b _ => ⟨ServerLoops.World.setConn_loop _, rfl, rfl, rfl⟩
  obtain ⟨u, hok, hreg, hindexed, hclosed⟩ := updateChannel_spec hr hchannels (Or.inl hknown)
    (ChannelOps.apply_fd f _) (ChannelOps.apply_index f _) (fun hnot => absurd hknown hnot)
    (by rw [hpeers, Function.update_self]; exact hknown.1)
  rw [hok]
  have hfd : ∀ m, ((s.interest n f).channels m).fd = (s.channels m).fd := by
    intro m
    rw [hchannels]
    by_cases hm : m = n
    · subst hm
      rw [Function.update_self]
      exact ChannelOps.apply_fd f _
    · rw [Function.update_of_ne hm]
  have hk : ∀ m, Known (s.interest n f).server.peers m ↔ m = n ∨ Known s.server.peers m := by
    intro m
    constructor
    · exact Or.inr
    · rintro (rfl | hm)
      · exact hknown
      · exact hm
  refine hindexed.inv hclosed (same_registry hreg hk) hheld h.closed h.once ?_
  intro m m' hm hm' hmc hmc' heq
  rw [hfd, hfd] at heq
  exact h.apart m m' hm hm' hmc hmc' heq

omit [DecidableEq L] in
/-- Where nobody holds a connection any more, its `connectDestroyed` has been called. -/
theorem Inv.destroy (h : Inv s) (hn : n < s.server.accepted) (hopen : n ∉ s.closed)
    (hown : s.server.owned n = false) (onLoop : Bool) :
    Ends Inv (fun _ => False) (s.destroy n onLoop) := by
  have hdestroyed : (s.server.peers n).destroyed = true := by
    apply decide_eq_true
    by_contra hlog
    rw [(h.held.owned_iff hn).mpr hlog] at hown
    cases hown
  have hs := h.held.stage n hn
  have hgone : (s.server.conn n).state = .kDisconnected := hs.gone hdestroyed
  have hadded : (s.channels n).addedToLoop = false := by
    show (s.server.peers n).conn.channel.addedToLoop = false
    rw [hs.added, hdestroyed, Bool.not_true, Bool.and_false]
  have hnot : (s.poller (s.server.loop n)).hasChannel n s.channels = false := by
    apply decide_eq_false
    intro hlookup
    have hk := ((h.registry.lookup _ _ _).mp hlookup).1
    exact absurd (hk.2.symm.trans hdestroyed) (by rintro ⟨⟩)
  rw [World.destroy, TcpConnection.dtor, check_ok hgone, nested_ok, ok_bind,
    check_bind hadded, check_bind fun _ => hnot]
  refine ⟨h.held, h.registry, ?_, ?_, ?_⟩
  · intro m hm
    rcases List.mem_append.mp hm with hm | hm
    · exact h.closed m hm
    · rw [List.mem_singleton.mp hm]
      exact ⟨hn, hdestroyed⟩
  · exact h.once.append (List.nodup_singleton n) (List.disjoint_singleton.mpr hopen)
  · intro m m' hm hm' hmc hmc'
    exact h.apart m m' hm hm' (fun hmem => hmc (List.mem_append_left _ hmem))
      fun hmem => hmc' (List.mem_append_left _ hmem)

/-! ## Runs keep the invariant -/

omit [DecidableEq L] in
/-- New pollers have no channel, and no descriptor has been closed. -/
theorem start_inv (h : Start s) : Inv s := by
  have hheld := ServerLoops.start_held h.server
  refine ⟨hheld, ?_, ?_, ?_, ?_⟩
  · obtain ⟨usePoll, hpoller⟩ := h.poller
    rw [hpoller]
    apply same_registry LoopPollers.registry_start
    intro n
    constructor
    · intro hn
      exact h.server.not_accepted n (known_accepted hheld.inv hn)
    · exact False.elim
  · intro n hn
    rw [h.closed] at hn
    cases hn
  · rw [h.closed]
    exact List.nodup_nil
  · intro m n hm
    exact absurd hm (h.server.not_accepted m)

/-- The step lemma. A second `handleClose` is the only failure that is left. -/
theorem Inv.step {b : Action L} {y : Except Assertion (World L)} (h : Inv s) (hg : Good s b)
    (hs : step s b = some y) :
    Ends Inv (fun e => s.Again b ∧ e = .server (.tcp .handleCloseState)) y := by
  cases b with
  | server a =>
      obtain ⟨r, hr, rfl⟩ := Option.map_eq_some_iff.mp hs
      exact h.server hg (ServerLoops.moves_of_step hr)
  | interest n f =>
      obtain ⟨⟨hn, -⟩, rfl⟩ := of_guard hs
      exact (h.interest hn (hg.interest n f rfl) f).mono (fun _ hs => hs) fun _ => False.elim
  | destroy n onLoop =>
      obtain ⟨⟨hn, hopen, hown⟩, rfl⟩ := of_guard hs
      exact (h.destroy hn hopen hown onLoop).mono (fun _ hs => hs) fun _ => False.elim

/-- By induction on a run of good steps. -/
theorem reachable_inv (h : runs.Reachable Good s) : Inv s := by
  apply h.invariant (fun _ h₀ => start_inv h₀)
  intro s b u hs hg hn
  exact hs.step hg hn

omit [DecidableEq L] in
/-- A channel is registered as long as its connection is held, and a descriptor is closed only
behind that. -/
theorem Inv.safe (h : Inv s) : s.Safe where
  registered l fd n := by
    rw [h.registry.lookup]
    have hknown : Known s.server.peers n ↔
        .connectEstablished n ∈ s.server.mail.log ∧ .connectDestroyed n ∉ s.server.mail.log := by
      simp [Known, ServerLoops.World.peers]
    constructor
    · rintro ⟨hk, hloop, hfd⟩
      exact ⟨known_accepted h.held.inv hk, hloop, hfd, hknown.mp hk⟩
    · rintro ⟨-, hloop, hfd, hk⟩
      exact ⟨hknown.mpr hk, hloop, hfd⟩
  closed n hn := by
    obtain ⟨hlt, hd⟩ := h.closed n hn
    have hlog := of_decide_eq_true hd
    refine ⟨hlog, ?_⟩
    by_contra hne
    exact (h.held.owned_iff hlt).mp (Bool.not_eq_false _ ▸ hne) hlog
  once := h.once
  apart := h.apart
  watched l fd hw := by
    cases hl : (s.poller l).channels.lookup fd with
    | none =>
        rw [Poller.watches_unregistered (h.registry.wf l) hl] at hw
        cases hw
    | some n =>
        obtain ⟨hk, hloop, hfd⟩ := (h.registry.lookup l fd n).mp hl
        exact ⟨n, known_accepted h.held.inv hk, not_closed h hk, hloop, hfd⟩

/-- The server `listening`, with an epoll instance for each loop. -/
def opened : World Bool where
  server := ServerLoops.listening
  poller := fun _ => Poller.newDefaultPoller false
  closed := []

end Zing.Net.ServerSockets
