import Zing.Net.ConnectionLife

set_option autoImplicit false

/-! # What a disconnected connection watches

`handleClose` and `connectDestroyed` disable the channel once, and several functions may update
it again behind that. `Quiet` says that a connection in `kDisconnected` watches nothing, and
`disconnected_quiet` which steps lead to a state in which it does: those that start to read
again, and those that update a channel without events that an `EPollPoller` has taken out of
the interest list.
-/

namespace Zing.Net.Connection

open Zing.Lib
open TcpConnection (Functor Effect StateE)

variable {T : Type} {w w' : World T} {es : List Effect}

/-! ## The steps that update the channel -/

namespace World

/-- The step calls `startReadInLoop`. -/
def startsRead (w : World T) : Action T → Bool
  | .startRead => true
  | .nextJob _ =>
      match w.phase with
      | .calling (.conn .startReadInLoop :: _) => true
      | _ => false
  | _ => false

/-- The step calls `stopReadInLoop`. -/
def stopsRead (w : World T) : Action T → Bool
  | .stopRead => true
  | .nextJob _ =>
      match w.phase with
      | .calling (.conn .stopReadInLoop :: _) => true
      | _ => false
  | _ => false

/-- The step calls `channel_->disableAll()`, in `handleClose` or in `connectDestroyed`. -/
def disablesAll (w : World T) : Action T → Bool
  | .disconnect => true
  | .handle n _ =>
      match w.stack, n with
      | .handlers (.close :: _) :: _, _ => true
      | .handlers (.read :: _) :: _, .eof => true
      | _, _ => false
  | .nextJob _ =>
      match w.phase with
      | .calling (.conn .forceCloseInLoop :: _) => w.conn.forceCloseTest
      | _ => false
  | _ => false

/-- A disconnected connection watches nothing, until `connectDestroyed` removes its channel. -/
def Quiet (w : World T) : Prop :=
  w.destroyed = false → w.conn.state = .kDisconnected →
    w.conn.channel.isNoneEvent = true ∧ w.poller.watches w.conn.channel.fd = false

end World

open World

/-- The step does not make a disconnected connection watch anything, while the channel has not
been removed: it does not start to read then; and where it updates a channel without events, the
update takes the channel away from the kernel. -/
structure Careful (w : World T) (a : Action T) : Prop where
  startRead : w.destroyed = false → w.startsRead a = true → w.conn.state ≠ .kDisconnected
  stopRead : w.destroyed = false → w.stopsRead a = true → w.conn.state = .kDisconnected →
    w.conn.reading = true → w.poller.drops w.conn.channel.fd = true
  disableAll : w.destroyed = false → w.disablesAll a = true →
    w.poller.drops w.conn.channel.fd = true

/-! ## The invariant -/

namespace World

/-- The poller is in order, it knows the channel or the channel is new to it, and a
disconnected connection watches nothing: neither has its channel an event, nor has the poller an
entry that the kernel looks at. -/
structure Kept (w : World T) : Prop where
  wf : w.poller.WF w.heap
  known : w.poller.Fresh w.heap w.self ∨ w.poller.Registered w.heap w.self
  silent : w.conn.state = .kDisconnected →
    w.conn.channel.isNoneEvent = true ∧ w.poller.watches w.conn.channel.fd = false

/-- A step that changes nothing that the invariant looks at. -/
theorem Kept.same (h : Kept w) (hpoller : w'.poller = w.poller) (hself : w'.self = w.self)
    (hheap : Poller.Agrees w.heap w'.heap)
    (hstate : w'.conn.state = .kDisconnected → w.conn.state = .kDisconnected) : Kept w' where
  wf := by
    rw [hpoller]
    exact h.wf.agrees hheap
  known := by
    rw [hpoller, hself]
    exact h.known.imp (fun hf => hf.agrees hheap) fun hr => hr.agrees hheap
  silent := by
    intro hd
    obtain ⟨hnone, hwatch⟩ := h.silent (hstate hd)
    obtain ⟨hfd, -, hevents⟩ := hheap w.self
    rw [← hself, heap_self, hself, heap_self] at hfd hevents
    rw [Channel.isNoneEvent, hevents, hpoller, hfd]
    exact ⟨hnone, hwatch⟩

/-- A state other than `kDisconnected` asks nothing of the channel. -/
theorem Kept.setState (h : Kept w) {s : StateE} (hs : s ≠ .kDisconnected) :
    Kept { w with conn := w.conn.setState s } :=
  h.same rfl rfl (agrees_refl _) fun hd => absurd hd hs

/-- A functor on a queue changes no channel. -/
theorem Kept.queue (h : Kept w) (j : Job) : Kept (w.queue j) :=
  h.same rfl rfl (agrees_refl _) id

/-! ## Updates of the channel -/

/-- What an update of the channel, whose object has changed since the poller was told, leads
to. -/
theorem updateChannel_known {h : Channels} (hwf : w.poller.WF h)
    (hown : w.poller.Fresh h w.self ∨ w.poller.Registered h w.self)
    (hheap : w.heap = Function.update h w.self w.conn.channel)
    (hfd : w.conn.channel.fd = (h w.self).fd) (hindex : w.conn.channel.index = (h w.self).index) :
    ∃ w', w.updateChannel = .ok w' ∧ (∃ k p o, w' = w.performed (indexed w.conn k) p o []) ∧
      w'.poller.WF w'.heap ∧ w'.poller.Registered w'.heap w'.self ∧
      w'.poller.watches w.conn.channel.fd =
        !(w.conn.channel.isNoneEvent && w.poller.drops w.conn.channel.fd) := by
  obtain ⟨p, o, hok, -⟩ := Poller.updateChannel_spec hwf hown hfd hindex
  obtain ⟨v, hv, hframe, hwf', hreg, -⟩ := updateChannel_ok hwf hown hheap hfd hindex
  refine ⟨v, hv, hframe, hwf', hreg, ?_⟩
  have hpoller : v.poller = p := by
    rw [World.updateChannel, hheap, hok] at hv
    cases hv
    rfl
  rw [hpoller]
  exact Poller.updateChannel_watches hwf hown hfd hindex hok

/-- A function of the connection that ends in one update of the channel. -/
theorem Kept.perform_update (h : Kept w) (conn : TcpConnection)
    (hfd : conn.channel.fd = w.conn.channel.fd)
    (hindex : conn.channel.index = w.conn.channel.index) :
    ∃ k p o, w.perform (.ok (conn, [.updateChannel])) =
        .ok (w.performed (indexed conn k) p o []) ∧
      (w.performed (indexed conn k) p o []).poller.WF (w.performed (indexed conn k) p o []).heap ∧
      p.Registered (w.performed (indexed conn k) p o []).heap w.self ∧
      p.watches conn.channel.fd =
        !(conn.channel.isNoneEvent && w.poller.drops conn.channel.fd) := by
  have hself : w.heap w.self = w.conn.channel := heap_self w
  obtain ⟨v, hv, ⟨k, p, o, rfl⟩, hwf, hreg, hwatch⟩ := updateChannel_known (h := w.heap)
    (w := { w with conn := conn }) h.wf h.known (Function.update_idem ..).symm
    (by rw [hself]; exact hfd) (by rw [hself]; exact hindex)
  refine ⟨k, p, o, ?_, hwf, hreg, hwatch⟩
  show (World.updateChannel _ >>= fun w => Except.ok w) = _
  rw [hv]
  rfl

/-- Effects that tell the poller of the change succeed, whether or not it knows the channel. -/
theorem applyEffects_known {h : Channels} (hwf : w.poller.WF h)
    (hown : w.poller.Fresh h w.self ∨ w.poller.Registered h w.self)
    (hheap : w.heap = Function.update h w.self w.conn.channel)
    (hfd : w.conn.channel.fd = (h w.self).fd) (hindex : w.conn.channel.index = (h w.self).index)
    (htell : Effect.updateChannel ∈ es ∨ h = w.heap) :
    ∃ w', w.applyEffects es = .ok w' ∧
      (∃ k p o, w' = w.performed (indexed w.conn k) p o (es.filterMap job)) ∧
      w'.poller.WF w'.heap ∧
      (w'.poller.Fresh w'.heap w'.self ∨ w'.poller.Registered w'.heap w'.self) := by
  induction es generalizing w h with
  | nil =>
      have hsame : h = w.heap := htell.resolve_left List.not_mem_nil
      subst hsame
      refine ⟨w, rfl, ⟨w.conn.channel.index, w.poller, w.others, ?_⟩, hwf, hown⟩
      simp only [performed, indexed, List.filterMap_nil, List.append_nil]
  | cons e es ih =>
      by_cases he : e = .updateChannel
      · -- from here on there is nothing more to tell
        subst he
        obtain ⟨v, hok, ⟨k₁, p₁, o₁, rfl⟩, hwf₁, hreg₁, -⟩ :=
          updateChannel_ok hwf hown hheap hfd hindex
        obtain ⟨u, hok₂, ⟨k, p, o, rfl⟩, hwf₂, hown₂⟩ :=
          ih hwf₁ (Or.inr hreg₁) (stale_heap hwf₁ hreg₁).heap (by rw [heap_self])
            (by rw [heap_self]) (Or.inr rfl)
        refine ⟨_, ?_, ⟨k, p, o, performed_performed ..⟩, hwf₂, hown₂⟩
        rw [World.applyEffects, World.applyEffect, hok, ok_bind]
        exact hok₂
      · have hmem : Effect.updateChannel ∈ e :: es ↔ Effect.updateChannel ∈ es := by
          simp only [List.mem_cons, Ne.symm he, false_or]
        rw [hmem] at htell
        obtain ⟨u, hok, ⟨k, p, o, rfl⟩, hwf', hown'⟩ :=
          ih (w := { w with pending := w.pending ++ (job e).toList }) hwf hown hheap hfd hindex
            htell
        refine ⟨_, ?_, ⟨k, p, o, ?_⟩, hwf', hown'⟩
        · rw [World.applyEffects, applyEffect_quiet he, ok_bind]
          exact hok
        · cases hj : job e <;> simp [performed, hj]

/-- How a step may end while the channel has not been removed. -/
def Keeps (r : Except Assertion (World T)) : Prop :=
  Ends (fun w' => w'.destroyed = false → Kept w') (fun _ => True) r

theorem Kept.keeps (h : Kept w) : Keeps (.ok w) := fun _ => h

/-- `sendInLoop` and `handleWrite` on a connection that is not disconnected. -/
theorem Kept.writes (h : Kept w) {conn : TcpConnection} (hopen : w.conn.state ≠ .kDisconnected)
    (hw : TcpConnection.Writes w.conn conn es) : Keeps (w.perform (.ok (conn, es))) := by
  have hself : w.heap w.self = w.conn.channel := heap_self w
  have hsame : conn.channel.fd = w.conn.channel.fd ∧
      conn.channel.index = w.conn.channel.index := by
    rcases hw.channel with hc | ⟨-, hc | hc⟩
    all_goals
      rw [hc]
      exact ⟨rfl, rfl⟩
  have htell : Effect.updateChannel ∈ es ∨ w.heap = ({ w with conn := conn } : World T).heap := by
    rcases hw.channel with hc | ⟨htell, -⟩
    · right
      simp only [heap, hc]
    · exact Or.inl htell
  obtain ⟨v, hv, ⟨k, p, o, rfl⟩, hwf, hown⟩ := applyEffects_known (h := w.heap)
    (w := { w with conn := conn }) h.wf h.known (Function.update_idem ..).symm
    (by rw [hself]; exact hsame.1) (by rw [hself]; exact hsame.2) htell
  have hperform : w.perform (.ok (conn, es)) = .ok _ := hv
  rw [hperform]
  intro _
  refine ⟨hwf, hown, ?_⟩
  intro hd
  rw [← hw.state] at hopen
  exact absurd hd hopen

/-- A function behind which the connection is not disconnected. -/
theorem Kept.update_open (h : Kept w) (conn : TcpConnection)
    (hfd : conn.channel.fd = w.conn.channel.fd) (hindex : conn.channel.index = w.conn.channel.index)
    (hopen : conn.state ≠ .kDisconnected) : Keeps (w.perform (.ok (conn, [.updateChannel]))) := by
  obtain ⟨k, p, o, hok, hwf, hreg, -⟩ := h.perform_update conn hfd hindex
  rw [hok]
  intro _
  exact ⟨hwf, Or.inr hreg, fun hd => absurd hd hopen⟩

/-- A function behind which the channel has no events, where the update takes it away from the
kernel. -/
theorem Kept.update_none (h : Kept w) (conn : TcpConnection)
    (hfd : conn.channel.fd = w.conn.channel.fd) (hindex : conn.channel.index = w.conn.channel.index)
    (hnone : conn.channel.isNoneEvent = true)
    (hdrops : w.poller.drops w.conn.channel.fd = true) :
    ∃ k p o, w.perform (.ok (conn, [.updateChannel])) =
        .ok (w.performed (indexed conn k) p o []) ∧ Kept (w.performed (indexed conn k) p o []) := by
  obtain ⟨k, p, o, hok, hwf, hreg, hwatch⟩ := h.perform_update conn hfd hindex
  refine ⟨k, p, o, hok, hwf, Or.inr hreg, ?_⟩
  intro _
  rw [hfd, hdrops, hnone, ← hfd] at hwatch
  exact ⟨hnone, hwatch⟩

/-! ## The functions of the connection -/

/-- What watches nothing does not read, -/
theorem isReading_of_none {c : Channel} (h : c.isNoneEvent = true) : c.isReading = false := by
  have hevents : c.events = kNoneEvent := of_decide_eq_true h
  rw [Channel.isReading_eq, hevents]
  rfl

/-- and does not write. -/
theorem isWriting_of_none {c : Channel} (h : c.isNoneEvent = true) : c.isWriting = false := by
  have hevents : c.events = kNoneEvent := of_decide_eq_true h
  rw [Channel.isWriting_eq, hevents]
  rfl

theorem isNoneEvent_disableReading {c : Channel} (h : c.isNoneEvent = true) :
    c.disableReading.isNoneEvent = true := by
  have hevents : c.events = kNoneEvent := of_decide_eq_true h
  have hnone : c.disableReading.events = kNoneEvent := by
    show c.events.and _ = _
    rw [hevents]
    rfl
  exact decide_eq_true hnone

/-- `connectEstablished` leaves a connection that is connected. -/
theorem Kept.connectEstablished (h : Kept w) : Keeps w.connectEstablished := by
  by_cases hstate : w.conn.state = .kConnecting
  · unfold World.connectEstablished
    rw [connectEstablished_established hstate]
    exact (h.update_open w.conn.established rfl rfl (by rintro ⟨⟩)).bind fun v hv hd =>
      (hv hd).same rfl rfl (agrees_refl _) id
  · rw [connectEstablished_error hstate]
    trivial

/-- The effect of `disableAll` in `handleClose` and in `connectDestroyed`. -/
theorem Kept.closed (h : Kept w) (hdrops : w.poller.drops w.conn.channel.fd = true) :
    ∃ k p o, w.perform (.ok (w.conn.closed, [.updateChannel])) =
        .ok (w.performed (indexed w.conn.closed k) p o []) ∧
      Kept (w.performed (indexed w.conn.closed k) p o []) :=
  h.update_none w.conn.closed rfl rfl (Channel.isNoneEvent_disableAll _) hdrops

/-- `handleClose` disables the channel, and the poller forgets it where that update drops it. -/
theorem Kept.handleClose (h : Kept w)
    (hdrops : w.poller.drops w.conn.channel.fd = true) : Keeps w.handleClose := by
  by_cases hopen : w.conn.state = .kConnected ∨ w.conn.state = .kDisconnecting
  · obtain ⟨k, p, o, hok, hk⟩ := h.closed hdrops
    rw [← handleClose_closed hopen] at hok
    unfold World.handleClose
    rw [hok]
    exact fun _ => hk.same rfl rfl (agrees_refl _) id
  · rw [handleClose_error hopen]
    trivial

/-- So does the first half of `connectDestroyed`. -/
theorem Kept.disconnect (h : Kept w)
    (hdrops : w.poller.drops w.conn.channel.fd = true) : Keeps w.disconnect := by
  obtain ⟨k, p, o, hok, hk⟩ := h.closed hdrops
  have hperform : w.perform (.ok w.conn.connectDestroyedConnected) = _ := hok
  unfold World.disconnect
  rw [hperform]
  exact fun _ => hk.same rfl rfl (agrees_refl _) id

/-- The second half takes the channel off the loop. -/
theorem Kept.connectDestroyed (h : Kept w) : Kept w.connectDestroyed := by
  unfold World.connectDestroyed
  split
  · exact h.same rfl rfl (agrees_refl _) id
  · exact h.same rfl rfl (agrees_refl _) id

/-- Behind `channel_->remove()` nothing is promised any more. -/
theorem channelRemove_keeps (w : World T) : Keeps w.channelRemove := by
  apply Ends.check_any trivial
  apply Ends.check_any trivial
  apply (ends_nested _ fun _ => trivial).bind
  rintro r - hd
  cases hd

/-- Reading again on a connection that is open is harmless. -/
theorem Kept.startReadInLoop (h : Kept w) (hopen : w.conn.state ≠ .kDisconnected) :
    Keeps (w.perform (.ok w.conn.startReadInLoop)) := by
  unfold TcpConnection.startReadInLoop
  split
  · exact h.update_open { w.conn with channel := w.conn.channel.enableReading, reading := true }
      rfl rfl hopen
  · exact h.keeps

/-- On a disconnected one it updates a channel without events, if `reading_` is still set. -/
theorem Kept.stopReadInLoop (h : Kept w) (hdrops : w.conn.state = .kDisconnected →
    w.conn.reading = true → w.poller.drops w.conn.channel.fd = true) :
    Keeps (w.perform (.ok w.conn.stopReadInLoop)) := by
  unfold TcpConnection.stopReadInLoop
  split
  case isTrue hreads =>
    by_cases hd : w.conn.state = .kDisconnected
    · obtain ⟨hnone, -⟩ := h.silent hd
      rw [isReading_of_none hnone, Bool.or_false] at hreads
      obtain ⟨k, p, o, hok, hk⟩ := h.update_none
        { w.conn with channel := w.conn.channel.disableReading, reading := false }
        rfl rfl (isNoneEvent_disableReading hnone) (hdrops hd hreads)
      rw [hok]
      exact hk.keeps
    · exact h.update_open
        { w.conn with channel := w.conn.channel.disableReading, reading := false } rfl rfl hd
  case isFalse => exact h.keeps

/-- `sendInLoop` gives up on a disconnected connection before it looks at the channel. -/
theorem Kept.sendInLoop (h : Kept w) (message : List Byte) (r : WriteResult) :
    Keeps (w.perform (w.conn.sendInLoop message r)) := by
  by_cases hd : w.conn.state = .kDisconnected
  · rw [TcpConnection.sendInLoop, if_pos hd]
    exact h.keeps
  · cases hs : w.conn.sendInLoop message r with
    | error a => trivial
    | ok p => exact h.writes hd (TcpConnection.sendInLoop_writes hs)

/-- `handleWrite` does nothing where the channel is not writing. -/
theorem Kept.handleWrite (h : Kept w) (r : WriteResult) :
    Keeps (w.perform (w.conn.handleWrite r)) := by
  by_cases hd : w.conn.state = .kDisconnected
  · -- a channel that watches nothing does not write
    have hwriting := isWriting_of_none (h.silent hd).1
    rw [TcpConnection.handleWrite, hwriting]
    exact h.keeps
  · cases hs : w.conn.handleWrite r with
    | error a => trivial
    | ok p => exact h.writes hd (TcpConnection.handleWrite_writes hs)

/-- The functions of the interface test the state, or only queue something. -/
theorem Kept.call (h : Kept w) (c : Call) (r : WriteResult) : Keeps (w.call c r) := by
  unfold World.call
  split
  case isTrue =>
    have hset : Kept { w with conn := w.conn.setState .kDisconnecting } :=
      h.setState (by rintro ⟨⟩)
    cases c with
    | shutdown =>
        simp only [callInLoop, perform_shutdownInLoop]
        exact hset.keeps
    | forceClose => exact (hset.queue _).keeps
    | forceCloseWithDelay => exact fun _ => hset.same rfl rfl (agrees_refl _) id
    | send message => exact h.sendInLoop message r
  case isFalse => exact h.keeps

/-- The next functor, behind the loop has taken it from the queue. -/
theorem Kept.runJob (h : Kept w) (j : Job) (r : WriteResult)
    (hstart : j = .conn .startReadInLoop → w.conn.state ≠ .kDisconnected)
    (hstop : j = .conn .stopReadInLoop → w.conn.state = .kDisconnected →
      w.conn.reading = true → w.poller.drops w.conn.channel.fd = true)
    (hclose : j = .conn .forceCloseInLoop → w.conn.forceCloseTest = true →
      w.poller.drops w.conn.channel.fd = true) : Keeps (w.runJob j r) := by
  have hpush : ∀ f : Frame, Kept { w with stack := f :: w.stack } :=
    fun f => h.same rfl rfl (agrees_refl _) id
  cases j with
  | user => exact (hpush _).keeps
  | connectEstablished => exact h.connectEstablished
  | conn f =>
      cases f with
      | forceCloseInLoop =>
          unfold World.runJob forceCloseInLoop
          dsimp only
          split
          case isTrue ht => exact h.handleClose (hclose rfl ht)
          case isFalse => exact h.keeps
      | forceCloseTimer => exact fun _ => h.same rfl rfl (agrees_refl _) id
      | connectDestroyed => exact h.connectDestroyed.keeps
      | writeCompleteCallback => exact (hpush _).keeps
      | highWaterMarkCallback n => exact (hpush _).keeps
      | sendInLoop message =>
          apply Ends.check_any trivial
          exact h.sendInLoop message r
      | shutdownInLoop =>
          apply Ends.check_any trivial
          rw [perform_shutdownInLoop]
          exact h.keeps
      | startReadInLoop =>
          apply Ends.check_any trivial
          exact h.startReadInLoop (hstart rfl)
      | stopReadInLoop =>
          apply Ends.check_any trivial
          exact h.stopReadInLoop (hstop rfl)

/-- Of the handlers only the two that end in `handleClose` need the condition. -/
theorem Kept.handle (h : Kept w) (e : Channel.Handler) (n : ReadResult) (r : WriteResult)
    (hclose : e = .close ∨ e = .read ∧ n = .eof → w.poller.drops w.conn.channel.fd = true) :
    Keeps (w.handle e n r) := by
  cases e with
  | close => exact h.handleClose (hclose (Or.inl rfl))
  | error => exact h.keeps
  | read =>
      cases n with
      | data => exact fun _ => h.same rfl rfl (agrees_refl _) id
      | eof => exact h.handleClose (hclose (Or.inr ⟨rfl, rfl⟩))
      | error => exact h.keeps
  | write => exact h.handleWrite r

theorem Kept.handleEvent (h : Kept w) (a : ChannelPtr) : Keeps (w.handleEvent a) := by
  unfold World.handleEvent
  split
  · apply Ends.check_any trivial
    exact fun _ => h.same rfl rfl (agrees_heap rfl rfl rfl rfl rfl) id
  · exact fun _ => h.same rfl rfl (agrees_refl _) id

/-! ## The server -/

/-- The server erases its entry and queues `connectDestroyed`. -/
theorem Kept.removeConnectionInLoop (h : Kept w) : Keeps w.removeConnectionInLoop := by
  apply Ends.check_any trivial
  apply Ends.check_any trivial
  exact fun _ => h.same rfl rfl (agrees_refl _) id

theorem Kept.closeCallback (h : Kept w) : Keeps w.closeCallback := by
  unfold World.closeCallback
  split
  · exact h.removeConnectionInLoop
  · apply Ends.check_any trivial
    exact fun _ => h.same rfl rfl (agrees_refl _) id

theorem Kept.destroyServer (h : Kept w) : Kept w.destroyServer := by
  have h' : Kept { w with serverAlive := false, connections := false } :=
    h.same rfl rfl (agrees_refl _) id
  unfold World.destroyServer
  dsimp only
  split
  · split
    · exact h'.connectDestroyed
    · exact h'.queue _
  · exact h'

/-- The destructor of the connection touches nothing. -/
theorem Kept.dtor (h : Kept w) : Keeps w.dtor := by
  apply (ends_nested _ fun _ => trivial).bind
  intro _ _
  apply Ends.check_any trivial
  apply Ends.check_any trivial
  apply Ends.check_any trivial
  exact fun _ => h.same rfl rfl (agrees_refl _) id

/-! ## Other channels -/

/-- The poller works for another channel. -/
theorem Kept.setPoller (h : Kept w) {r : Poller × Channels} (hs : w.Spares r) :
    Kept (w.setPoller r) := by
  obtain ⟨k, hk⟩ := hs.self
  have hheap : (w.setPoller r).heap = r.2 := setPoller_heap w r.1 r.2
  have hknown := h.known
  rw [Poller.Fresh, Poller.Registered, heap_self] at hknown
  refine ⟨?_, ?_, ?_⟩
  · rw [hheap]
    exact hs.wf
  · rw [hheap]
    show r.1.channels.lookup (r.2 w.self).fd = none ∧ (r.2 w.self).index = -1 ∨
      r.1.channels.lookup (r.2 w.self).fd = some w.self
    rcases hknown with ⟨hnone, hindex⟩ | hreg
    · have hunreg : ¬ w.poller.Registered w.heap w.self := by
        rw [Poller.Registered, heap_self, hnone]
        rintro ⟨⟩
      rw [hs.unregistered hunreg]
      exact Or.inl ⟨hs.lookup.trans hnone, hindex⟩
    · rw [hk]
      exact Or.inr (hs.lookup.trans hreg)
  · intro hd
    obtain ⟨hempty, hw⟩ := h.silent hd
    show (r.2 w.self).isNoneEvent = true ∧ r.1.watches (r.2 w.self).fd = false
    rw [hk]
    refine ⟨hempty, ?_⟩
    rcases hknown with ⟨hnone, -⟩ | hreg
    · exact Poller.watches_unregistered hs.wf (hs.lookup.trans hnone)
    · rw [← hw]
      apply hs.watches
      rw [Poller.Registered, heap_self]
      exact hreg

/-- Another channel has another descriptor. -/
theorem Kept.updateOther (h : Kept w) {a : ChannelPtr} {c : Channel}
    (hc : w.mayUpdateOther a c) :
    Keeps (do
      let r ← nested .pollerUpdate (w.poller.updateChannel a (Function.update w.heap a c))
      .ok (w.setPoller r)) := by
  obtain ⟨r, hok, hs⟩ := updateOther_spares h.wf hc
  rw [hok]
  exact fun _ => h.setPoller hs

/-! ## A removed channel stays removed -/

/-- The step does not forget that `connectDestroyed` has run. -/
def StaysDestroyed (w : World T) (r : Except Assertion (World T)) : Prop :=
  Ends (fun w' => w.destroyed = true → w'.destroyed = true) (fun _ => True) r

/-- A function of the connection knows nothing of its own removal. -/
theorem perform_destroyed (w : World T)
    (r : Except TcpConnection.Assertion (TcpConnection × List Effect)) :
    StaysDestroyed w (w.perform r) := by
  apply (w.perform_ends r).mono _ fun _ _ => trivial
  rintro _ ⟨conn, es, c, p, o, -, rfl⟩
  exact id

theorem connectEstablished_destroyed (w : World T) : StaysDestroyed w w.connectEstablished :=
  (perform_destroyed w _).bind fun _ hv => hv

theorem handleClose_destroyed (w : World T) : StaysDestroyed w w.handleClose :=
  (perform_destroyed w _).bind fun _ hv => hv

theorem disconnect_destroyed (w : World T) : StaysDestroyed w w.disconnect :=
  (perform_destroyed w _).bind fun _ hv => hv

theorem connectDestroyed_destroyed (w : World T) :
    w.connectDestroyed.destroyed = w.destroyed := by
  unfold World.connectDestroyed
  split
  · rfl
  · rfl

theorem destroyServer_destroyed (w : World T) : w.destroyServer.destroyed = w.destroyed := by
  unfold destroyServer
  dsimp only
  split
  · split
    · exact connectDestroyed_destroyed _
    · rfl
  · rfl

theorem removeConnectionInLoop_destroyed (w : World T) :
    StaysDestroyed w w.removeConnectionInLoop := by
  apply Ends.check_any trivial
  apply Ends.check_any trivial
  exact id

theorem call_destroyed (w : World T) (c : Call) (r : WriteResult) :
    StaysDestroyed w (w.call c r) := by
  unfold World.call
  split
  · cases c with
    | shutdown => exact perform_destroyed { w with conn := w.conn.setState .kDisconnecting } _
    | forceClose => exact id
    | forceCloseWithDelay => exact id
    | send message => exact perform_destroyed w _
  · exact id

theorem runJob_destroyed (w : World T) (j : Job) (r : WriteResult) :
    StaysDestroyed w (w.runJob j r) := by
  cases j with
  | user => exact id
  | connectEstablished => exact connectEstablished_destroyed w
  | conn f =>
      cases f with
      | forceCloseInLoop =>
          unfold runJob forceCloseInLoop
          dsimp only
          split
          · exact handleClose_destroyed w
          · exact id
      | connectDestroyed =>
          intro hd
          rw [connectDestroyed_destroyed]
          exact hd
      | sendInLoop message | shutdownInLoop | startReadInLoop | stopReadInLoop =>
          apply Ends.check_any trivial
          exact perform_destroyed w _
      | _ => exact id

theorem handle_destroyed (w : World T) (e : Channel.Handler) (n : ReadResult)
    (r : WriteResult) : StaysDestroyed w (w.handle e n r) := by
  cases e with
  | close => exact handleClose_destroyed w
  | error => exact id
  | read =>
      cases n with
      | eof => exact handleClose_destroyed w
      | _ => exact id
  | write => exact perform_destroyed w _

end World

variable [DecidableEq T] {a : Action T} {r : Except Assertion (World T)}

/-- No step of the model does. -/
theorem Moves.staysDestroyed (hm : Moves w a r) : StaysDestroyed w r := by
  cases hm with
  | call => exact call_destroyed w _ _
  | startRead => exact perform_destroyed w _
  | stopRead => exact perform_destroyed w _
  | timer => exact call_destroyed { w with timers := w.timers - 1 } _ _
  | destroyServer | baseDestroyServer =>
      intro hd
      rw [destroyServer_destroyed]
      exact hd
  | updateOther =>
      apply (ends_nested _ fun _ => trivial).bind
      intro _ _
      exact id
  | establish => exact connectEstablished_destroyed { w with stack := _ }
  | closeCallback =>
      unfold World.closeCallback
      split
      · exact removeConnectionInLoop_destroyed { w with stack := _ }
      · apply Ends.check_any trivial
        exact id
  | disconnect => exact disconnect_destroyed { w with stack := _ }
  | remove =>
      apply Ends.check_any trivial
      apply Ends.check_any trivial
      apply (ends_nested _ fun _ => trivial).bind
      intro _ _ _
      rfl
  | handle => exact handle_destroyed { w with stack := _ } _ _ _
  | nextChannel =>
      unfold handleEvent
      split
      · apply Ends.check_any trivial
        exact id
      · exact id
  | nextJob => exact runJob_destroyed { w with phase := _ } _ _
  | baseRemove => exact removeConnectionInLoop_destroyed { w with baseQueue := w.baseQueue - 1 }
  | destruct =>
      apply (ends_nested _ fun _ => trivial).bind
      intro _ _
      apply Ends.check_any trivial
      apply Ends.check_any trivial
      apply Ends.check_any trivial
      exact id
  | _ => exact id

/-! ## Steps -/

/-- A careful step keeps the invariant. -/
theorem World.Kept.step (h : Kept w) (hd : w.destroyed = false) (hc : Careful w a)
    (hm : Moves w a r) : Keeps r := by
  cases hm with
  | call => exact h.call _ _
  | startRead => exact h.startReadInLoop (hc.startRead hd rfl)
  | stopRead => exact h.stopReadInLoop (hc.stopRead hd rfl)
  | timerDead => exact fun _ => h.same rfl rfl (agrees_refl _) id
  | timer =>
      have h' : Kept { w with timers := w.timers - 1 } := h.same rfl rfl (agrees_refl _) id
      exact h'.call _ _
  | destroyServer | baseDestroyServer => exact h.destroyServer.keeps
  | updateOther _ hother => exact h.updateOther hother
  | removeOther _ ha hr => exact (h.setPoller (removeOther_spares h.wf ha hr)).keeps
  | @establish stack =>
      have h' : Kept { w with stack := stack } := h.same rfl rfl (agrees_refl _) id
      exact h'.connectEstablished
  | @closeCallback stack =>
      have h' : Kept { w with stack := stack } := h.same rfl rfl (agrees_refl _) id
      exact h'.closeCallback
  | @disconnect stack =>
      have h' : Kept { w with stack := stack } := h.same rfl rfl (agrees_refl _) id
      exact h'.disconnect (hc.disableAll hd rfl)
  | remove => exact channelRemove_keeps _
  | @handle e rest stack n wr hs =>
      have h' : Kept { w with stack := .handlers rest :: stack } :=
        h.same rfl rfl (agrees_refl _) id
      refine h'.handle e n wr ?_
      intro he
      apply hc.disableAll hd
      rcases he with rfl | ⟨rfl, rfl⟩
      · simp only [disablesAll, hs]
      · simp only [disablesAll, hs]
  | poll => exact fun _ => h.same rfl rfl (agrees_heap rfl rfl rfl rfl rfl) id
  | @nextChannel active _ a todo =>
      have h' : Kept { w with phase := .handling active (some a) todo } :=
        h.same rfl rfl (agrees_refl _) id
      exact h'.handleEvent a
  | @nextJob j rest wr hp =>
      have h' : Kept { w with phase := .calling rest } := h.same rfl rfl (agrees_refl _) id
      apply h'.runJob
      · rintro rfl
        apply hc.startRead hd
        simp only [startsRead, hp]
      · rintro rfl
        apply hc.stopRead hd
        simp only [stopsRead, hp]
      · rintro rfl ht
        apply hc.disableAll hd
        simp only [disablesAll, hp]
        exact ht
  | @set thread c =>
      cases c with
      | send message => exact fun _ => h.same rfl rfl (agrees_refl _) id
      | _ =>
          have h' := h.setState (s := .kDisconnecting) (by rintro ⟨⟩)
          exact fun _ => h'.same rfl rfl (agrees_refl _) id
  | baseRemove =>
      have h' : Kept { w with baseQueue := w.baseQueue - 1 } := h.same rfl rfl (agrees_refl _) id
      exact h'.removeConnectionInLoop
  | destruct => exact h.dtor
  | handlersDone => exact fun _ => h.same rfl rfl (agrees_heap rfl rfl rfl rfl rfl) id
  | _ => exact fun _ => h.same rfl rfl (agrees_refl _) id

/-! ## Steps that are not careful

For each kind of step that `Careful` leaves out, such a step does lead to a disconnected connection
that watches something.
-/

omit [DecidableEq T] in
/-- Without the condition: reading is enabled behind the close, and the channel watches again. -/
theorem World.Kept.startRead_loud (h : Kept w) (hd : w.conn.state = .kDisconnected)
    (hdes : w.destroyed = false) (hw : w.perform (.ok w.conn.startReadInLoop) = .ok w') :
    ¬ w'.Quiet := by
  obtain ⟨hnone, -⟩ := h.silent hd
  have hreads : (!w.conn.reading || !w.conn.channel.isReading) = true := by
    rw [isReading_of_none hnone]
    exact Bool.or_true _
  rw [TcpConnection.startReadInLoop, if_pos hreads] at hw
  obtain ⟨k, p, o, hok, -⟩ := h.perform_update
    { w.conn with channel := w.conn.channel.enableReading, reading := true } rfl rfl
  rw [hok] at hw
  cases hw
  intro hquiet
  obtain ⟨hnone', -⟩ := hquiet hdes hd
  have hreading := isReading_of_none hnone'
  have hread : w.conn.channel.enableReading.isReading = true := Channel.isReading_enableReading _
  have hsame : w.conn.channel.enableReading.isReading = false := hreading
  rw [hread] at hsame
  cases hsame

omit [DecidableEq T] in
/-- An update of a channel without events that the kernel does not watch makes it do so. -/
theorem World.Kept.update_loud (h : Kept w) (conn : TcpConnection)
    (hfd : conn.channel.fd = w.conn.channel.fd) (hindex : conn.channel.index = w.conn.channel.index)
    (hdrops : ¬ w.poller.drops w.conn.channel.fd = true) :
    ∃ k p o, w.perform (.ok (conn, [.updateChannel])) =
        .ok (w.performed (indexed conn k) p o []) ∧ p.watches conn.channel.fd = true := by
  obtain ⟨k, p, o, hok, -, -, hwatch⟩ := h.perform_update conn hfd hindex
  rw [hfd, Bool.eq_false_iff.mpr hdrops, Bool.and_false, ← hfd] at hwatch
  exact ⟨k, p, o, hok, hwatch⟩

omit [DecidableEq T] in
/-- The update of a channel that is not in the interest list puts it there, without events but
with the two that `epoll` always reports. -/
theorem World.Kept.stopRead_loud (h : Kept w) (hd : w.conn.state = .kDisconnected)
    (hdes : w.destroyed = false) (hreading : w.conn.reading = true)
    (hdrops : ¬ w.poller.drops w.conn.channel.fd = true)
    (hw : w.perform (.ok w.conn.stopReadInLoop) = .ok w') : ¬ w'.Quiet := by
  have hreads : (w.conn.reading || w.conn.channel.isReading) = true := by
    rw [hreading]
    exact Bool.true_or _
  rw [TcpConnection.stopReadInLoop, if_pos hreads] at hw
  obtain ⟨k, p, o, hok, hwatch⟩ := h.update_loud
    { w.conn with channel := w.conn.channel.disableReading, reading := false } rfl rfl hdrops
  rw [hok] at hw
  cases hw
  intro hquiet
  obtain ⟨-, hwatch'⟩ := hquiet hdes hd
  exact Bool.noConfusion (hwatch.symm.trans hwatch')

omit [DecidableEq T] in
/-- The same update, made by a `handleClose` behind a `stopRead`. -/
theorem World.Kept.handleClose_loud (h : Kept w) (hdes : w.destroyed = false)
    (hdrops : ¬ w.poller.drops w.conn.channel.fd = true) (hw : w.handleClose = .ok w') :
    ¬ w'.Quiet := by
  by_cases hopen : w.conn.state = .kConnected ∨ w.conn.state = .kDisconnecting
  · obtain ⟨k, p, o, hok, hwatch⟩ := h.update_loud w.conn.closed rfl rfl hdrops
    rw [← handleClose_closed hopen] at hok
    unfold World.handleClose at hw
    rw [hok] at hw
    cases hw
    intro hquiet
    obtain ⟨-, hwatch'⟩ := hquiet hdes rfl
    exact Bool.noConfusion (hwatch.symm.trans hwatch')
  · rw [handleClose_error hopen] at hw
    cases hw

omit [DecidableEq T] in
/-- And made by `connectDestroyed`. -/
theorem World.Kept.disconnect_loud (h : Kept w) (hdes : w.destroyed = false)
    (hdrops : ¬ w.poller.drops w.conn.channel.fd = true) (hw : w.disconnect = .ok w') :
    ¬ w'.Quiet := by
  obtain ⟨k, p, o, hok, hwatch⟩ := h.update_loud w.conn.closed rfl rfl hdrops
  have hperform : w.perform (.ok w.conn.connectDestroyedConnected) = _ := hok
  unfold World.disconnect at hw
  rw [hperform] at hw
  cases hw
  intro hquiet
  obtain ⟨-, hwatch'⟩ := hquiet hdes rfl
  exact Bool.noConfusion (hwatch.symm.trans hwatch')

omit [DecidableEq T] in
/-- A functor in front of its assertion that the connection is still there. -/
theorem alive_of_ok {x : Unit → Except Assertion (World T)}
    (h : (check (w.dead = false) .deadConnection >>= x) = .ok w') : x () = .ok w' := by
  obtain ⟨_, -, hx⟩ := bind_eq_ok.mp h
  exact hx

/-- Behind a quiet step no `startReadInLoop` ran on a disconnected connection. -/
theorem World.Kept.noStartRead (h : Kept w) (hm : Moves w a r) (hr : r = .ok w')
    (hquiet : w'.Quiet) (hdes : w.destroyed = false) (hs : w.startsRead a = true) :
    w.conn.state ≠ .kDisconnected := by
  intro hd
  cases hm with
  | startRead => exact h.startRead_loud hd hdes hr hquiet
  | @nextJob j rest wr hp =>
      -- the functor queued by `startRead` from another thread
      have hj : j = .conn .startReadInLoop := by
        simp only [startsRead, hp] at hs
        split at hs
        case h_1 heq =>
          cases heq
          rfl
        case h_2 => cases hs
      subst hj
      have h' : Kept { w with phase := .calling rest } := h.same rfl rfl (agrees_refl _) id
      exact h'.startRead_loud hd hdes (alive_of_ok hr) hquiet
  | _ => cases hs

/-- Behind a quiet step `stopReadInLoop` on a disconnected connection had nothing to stop, or
the poller dropped what it was told. -/
theorem World.Kept.stopRead_drops (h : Kept w) (hm : Moves w a r) (hr : r = .ok w')
    (hquiet : w'.Quiet) (hdes : w.destroyed = false) (hs : w.stopsRead a = true)
    (hd : w.conn.state = .kDisconnected) (hreading : w.conn.reading = true) :
    w.poller.drops w.conn.channel.fd = true := by
  by_contra hdrops
  cases hm with
  | stopRead => exact h.stopRead_loud hd hdes hreading hdrops hr hquiet
  | @nextJob j rest wr hp =>
      have hj : j = .conn .stopReadInLoop := by
        simp only [stopsRead, hp] at hs
        split at hs
        case h_1 heq =>
          cases heq
          rfl
        case h_2 => cases hs
      subst hj
      have h' : Kept { w with phase := .calling rest } := h.same rfl rfl (agrees_refl _) id
      exact h'.stopRead_loud hd hdes hreading hdrops (alive_of_ok hr) hquiet
  | _ => cases hs

/-- Behind a quiet `disableAll` the poller dropped the channel: otherwise the kernel still
watches it for errors and hang-ups. -/
theorem World.Kept.disableAll_drops (h : Kept w) (hm : Moves w a r) (hr : r = .ok w')
    (hquiet : w'.Quiet) (hdes : w.destroyed = false) (hs : w.disablesAll a = true) :
    w.poller.drops w.conn.channel.fd = true := by
  by_contra hdrops
  cases hm with
  | @disconnect stack =>
      have h' : Kept { w with stack := stack } := h.same rfl rfl (agrees_refl _) id
      exact h'.disconnect_loud hdes hdrops hr hquiet
  | @handle e rest stack n wr hstack =>
      have h' : Kept { w with stack := .handlers rest :: stack } :=
        h.same rfl rfl (agrees_refl _) id
      -- only `handleClose`, or `handleRead` at the end of the stream, disables all events
      have hclose : ({ w with stack := .handlers rest :: stack } : World T).handle e n wr =
          ({ w with stack := .handlers rest :: stack } : World T).handleClose := by
        simp only [disablesAll, hstack] at hs
        cases e with
        | close => rfl
        | read =>
            cases n with
            | eof => rfl
            | _ => cases hs
        | _ => cases hs
      rw [hclose] at hr
      exact h'.handleClose_loud hdes hdrops hr hquiet
  | handlersDone hstack =>
      simp only [disablesAll, hstack] at hs
      cases hs
  | @nextJob j rest wr hp =>
      have h' : Kept { w with phase := .calling rest } := h.same rfl rfl (agrees_refl _) id
      -- the functor is `forceCloseInLoop` on an open connection
      have hclose : ({ w with phase := .calling rest } : World T).runJob j wr =
          ({ w with phase := .calling rest } : World T).handleClose := by
        simp only [disablesAll, hp] at hs
        split at hs
        case h_1 heq =>
          cases heq
          exact if_pos hs
        case h_2 => cases hs
      rw [hclose] at hr
      exact h'.handleClose_loud hdes hdrops hr hquiet
  | _ => cases hs

/-- The condition is what a step needs. -/
theorem World.Kept.careful (h : Kept w) (hm : Moves w a r) (hr : r = .ok w')
    (hquiet : w'.Quiet) : Careful w a := by
  constructor
  · exact h.noStartRead hm hr hquiet
  · exact h.stopRead_drops hm hr hquiet
  · exact h.disableAll_drops hm hr hquiet

/-! ## Runs -/

omit [DecidableEq T] in
/-- A new connection is unknown to the poller, and connecting. -/
theorem start_kept (h : Start w) : Kept w where
  wf := h.poller
  known := Or.inl h.fresh
  silent := by
    intro hd
    rw [h.state] at hd
    cases hd

/-- By induction on a run of careful steps. -/
theorem reachable_kept {t : World T} (h : runs.Reachable Careful t) :
    t.destroyed = false → Kept t := by
  apply h.invariant (I := fun t => t.destroyed = false → Kept t)
  · intro s hs _
    exact start_kept hs
  · intro s a u hk hc hn hdes
    have hm := next_moves hn
    have hdes' : s.destroyed = false := by
      apply Bool.eq_false_iff.mpr
      intro hd
      have hstays : s.destroyed = true → u.destroyed = true := hm.staysDestroyed
      rw [hstays hd] at hdes
      cases hdes
    exact (hk hdes').step hdes' hc hm hdes

/-- In every run all of whose steps are careful, a disconnected connection watches nothing
until `connectDestroyed` removes its channel; and behind such a run a step leads to a state in
which it watches nothing if and only if the step is careful. -/
theorem disconnected_quiet (t : World T) (h : runs.Reachable Careful t) :
    t.Quiet ∧ ∀ a u, runs.Next t a u → (u.Quiet ↔ Careful t a) := by
  have hquiet : ∀ {v : World T}, runs.Reachable Careful v → v.Quiet :=
    fun hv hdes => (reachable_kept hv hdes).silent
  refine ⟨hquiet h, ?_⟩
  intro a u hn
  constructor
  · intro hu
    by_cases hdes : t.destroyed = false
    · exact (reachable_kept h hdes).careful (next_moves hn) rfl hu
    · exact ⟨fun hd => absurd hd hdes, fun hd => absurd hd hdes, fun hd => absurd hd hdes⟩
  · intro hc
    exact hquiet (h.run (System.Run.single hc hn))

/-- Up to the callbacks for a hang-up of the peer. -/
def hungUp : List (Action Unit) :=
  [.establish, .returns, .returns, .handled, .jobsDone, .poll [2] { pollHup := true },
    .nextChannel]

theorem disconnected_quiet_sample : ∃ t u : World Unit, runs.Reachable Careful t ∧
    runs.Next t (.handle .error (.accepted 0)) u ∧
    u.conn.state = .kDisconnected ∧ u.destroyed = false ∧ u.Quiet := by
  have hrun := System.run_of_exec
    (rfl : runs.exec (accepted false) hungUp = some (.ok _))
  have hcareful : ∀ a ∈ hungUp, ∀ t : World Unit, Careful t a := by
    intro a ha t
    simp only [hungUp, List.mem_cons, List.not_mem_nil, or_false] at ha
    rcases ha with rfl | rfl | rfl | rfl | rfl | rfl | rfl
    all_goals
      exact ⟨fun _ hs => (by cases hs), fun _ hs => (by cases hs), fun _ hs => (by cases hs)⟩
  have hreach := System.Reachable.run (System.Reachable.of_init (accepted_start false))
    (hrun.of_actions hcareful)
  obtain ⟨-, hiff⟩ := disconnected_quiet _ hreach
  have hquiet := (hiff (.handle .error (.accepted 0)) _ rfl).mpr
    ⟨fun _ hs => (by cases hs), fun _ hs => (by cases hs), fun _ _ => rfl⟩
  refine ⟨_, _, hreach, ?_, ?_, ?_, hquiet⟩
  · rfl
  · rfl
  · rfl

/-- The user closes the connection, and starts to read in its callback. -/
theorem reads_behind_close : ¬ ∀ t : World Unit, runs.Reachable System.always t → t.Quiet := by
  intro hall
  have hrun := System.run_of_exec
    (rfl : runs.exec (accepted (T := Unit) false)
      [.establish, .call .forceClose (.accepted 0), .returns, .returns, .handled,
        .nextJob (.accepted 0), .startRead] = some (.ok _))
  have hreach := System.Reachable.run (System.Reachable.of_init (accepted_start false)) hrun
  obtain ⟨hnone, -⟩ := hall _ hreach rfl rfl
  cases hnone

end Zing.Net.Connection
