import Zing.Net.ConnectionEffects

set_option autoImplicit false

/-! # The life of a connection on one loop

Between `connectEstablished` and the end of `connectDestroyed` a connection is up, closing,
leaving or gone: `handleClose` makes it closing, the removal from the server's map makes it
leaving, and `channel_->remove()` makes it gone. `Stage` says for each of these what the
members, the poller and the functions that are still to run look like. `Running` is the
invariant, and the lemmas below say for each function that it keeps it and which assertions it
may fail.
-/

namespace Zing.Net

open Zing.Lib

/-- The connection behind the first half of `connectEstablished`. -/
def TcpConnection.established (conn : TcpConnection) : TcpConnection :=
  { conn with state := .kConnected, channel := conn.channel.tie.enableReading }

/-- The connection behind the first half of `handleClose` and of `connectDestroyed`. -/
def TcpConnection.closed (conn : TcpConnection) : TcpConnection :=
  { conn with state := .kDisconnected, channel := conn.channel.disableAll }

namespace Connection

open TcpConnection (Functor Effect StateE)

/-! ## Stages -/

/-- How far a connection has got. The numbers are those of the frames `remove` and
`closeCallback` and of the functors `connectDestroyed`. -/
structure Progress where
  state : StateE
  reading : Bool
  noneEvent : Bool
  added : Bool
  callbacks : List Bool
  connections : Bool
  serverAlive : Bool
  destroyed : Bool
  removes : Nat
  closeCallbacks : Nat
  connectDestroyed : Nat

namespace Progress

/-- The connection is connected or half-closed: it reads, the server has it, the user has been
called once, and nothing of the tear-down is due. -/
structure Up (p : Progress) : Prop where
  state : p.state = .kConnected ∨ p.state = .kDisconnecting
  reading : p.reading = true
  callbacks : p.callbacks = [true]
  connections : p.connections = true
  destroyed : p.destroyed = false
  due : p.removes = 0 ∧ p.closeCallbacks = 0 ∧ p.connectDestroyed = 0

/-- The connection is closed, and the user knows. -/
structure Down (p : Progress) : Prop where
  state : p.state = .kDisconnected
  noneEvent : p.noneEvent = true
  callbacks : p.callbacks = [true, false]

/-- `handleClose` has run. The server still has the connection, and the call of `closeCallback_`
is due. -/
structure Closing (p : Progress) : Prop extends Down p where
  connections : p.connections = true
  destroyed : p.destroyed = false
  due : p.removes = 0 ∧ p.closeCallbacks = 1 ∧ p.connectDestroyed = 0

/-- The server has dropped the connection, and one thing is due: `connectDestroyed`, or the
removal of the channel in it. -/
structure Leaving (p : Progress) : Prop extends Down p where
  connections : p.connections = false
  destroyed : p.destroyed = false
  due : p.removes + p.connectDestroyed = 1
  dead : p.serverAlive = true → p.closeCallbacks = 0

/-- `connectDestroyed` has run to its end, and nothing is due any more. -/
structure Gone (p : Progress) : Prop extends Down p where
  added : p.added = false
  connections : p.connections = false
  destroyed : p.destroyed = true
  due : p.removes + p.connectDestroyed = 0
  dead : p.serverAlive = true → p.closeCallbacks = 0

end Progress

/-- The four stages, each with what the poller has to know of the channel: `registered` until
`channel_->remove()`, and `disabled` from `handleClose` on. No stage is left out, and a connection
goes through them in this order. -/
inductive Stage (p : Progress) (registered disabled : Prop) : Prop
  | up (hp : p.Up) (hr : registered)
  | closing (hp : p.Closing) (hr : registered) (hd : disabled)
  | leaving (hp : p.Leaving) (hr : registered) (hd : disabled)
  | gone (hp : p.Gone) (hr : ¬ registered)

/-- The frames that stand for a part of the tear-down. -/
def Frame.due : Frame → Bool
  | .disconnect => true
  | .remove => true
  | .closeCallback => true
  | _ => false

/-- A frame of another kind does not count. -/
theorem count_cons_due {f g : Frame} (hf : f.due = true) (hg : g.due = false)
    (stack : List Frame) : (g :: stack).count f = stack.count f := by
  apply List.count_cons_of_ne
  rintro rfl
  rw [hf] at hg
  cases hg

/-- The functors on the queue of a loop that no other thread posts to. -/
def Job.quiet : Job → Bool
  | .user => true
  | .connectEstablished => false
  | .conn f =>
      match f with
      | .sendInLoop _ => false
      | .shutdownInLoop => false
      | .startReadInLoop => false
      | .stopReadInLoop => false
      | _ => true

/-- The assertions of the tear-down: those of `connectDestroyed`, of `Channel::remove`, of the
functions of the poller, and of the destructors. -/
def Assertion.tearDown : Assertion → Bool
  | .tcp a => a = .dtorState
  | .noneEvent => true
  | .pollerUpdate _ => true
  | .pollerRemove _ => true
  | .channelDtor => true
  | _ => false

variable {T : Type} {w w' : World T} {es : List Effect} {js : List Job}

namespace World

/-- How far the connection of a world has got. -/
def progress (w : World T) : Progress where
  state := w.conn.state
  reading := w.conn.channel.isReading
  noneEvent := w.conn.channel.isNoneEvent
  added := w.conn.channel.addedToLoop
  callbacks := w.callbacks
  connections := w.connections
  serverAlive := w.serverAlive
  destroyed := w.destroyed
  removes := w.stack.count .remove
  closeCallbacks := w.stack.count .closeCallback
  connectDestroyed := w.jobs.count (.conn .connectDestroyed)

/-- What holds of a connection on a single loop at any time. -/
structure Base (w : World T) : Prop where
  sameLoop : w.sameLoop = true
  wf : w.poller.WF w.heap
  handling : w.conn.channel.eventHandling = true → ∃ rest, Frame.handlers rest ∈ w.stack
  quiet : ∀ j ∈ w.jobs, j.quiet = true

/-- `connectEstablished` has not been called yet. -/
structure Connecting (w : World T) : Prop extends Base w where
  stack : w.stack = [.establish, .user]
  state : w.conn.state = .kConnecting
  fresh : w.poller.Fresh w.heap w.self
  callbacks : w.callbacks = []
  connections : w.connections = true
  destroyed : w.destroyed = false
  jobs : w.jobs.count (.conn .connectDestroyed) = 0

/-- `connectDestroyed` is going to disconnect the connection. -/
structure Destroying (w : World T) : Prop extends Base w where
  stack : ∃ rest, w.stack = .disconnect :: rest ∧ rest.count .disconnect = 0 ∧
    rest.count .remove = 0 ∧ rest.count .closeCallback = 0
  registered : w.poller.Registered w.heap w.self
  callbacks : w.callbacks = [true]
  connections : w.connections = false
  destroyed : w.destroyed = false
  jobs : w.jobs.count (.conn .connectDestroyed) = 0

/-- Calling something leaves the handlers on the stack. -/
theorem Base.handling_push (h : Base w) (f : Frame)
    (hh : w.conn.channel.eventHandling = true) : ∃ rest, Frame.handlers rest ∈ f :: w.stack := by
  obtain ⟨rest, hmem⟩ := h.handling hh
  exact ⟨rest, List.mem_cons_of_mem f hmem⟩

/-- Returning from a part of the tear-down does too. -/
theorem Base.handling_pop (h : Base w) {f : Frame} {stack : List Frame}
    (hs : w.stack = f :: stack) (hf : f.due = true) (hh : w.conn.channel.eventHandling = true) :
    ∃ rest, Frame.handlers rest ∈ stack := by
  obtain ⟨rest, hmem⟩ := h.handling hh
  rw [hs] at hmem
  rcases List.mem_cons.mp hmem with rfl | hmem
  · cases hf
  · exact ⟨rest, hmem⟩

/-- The connection is in one of its stages. -/
structure Running (w : World T) : Prop extends Base w where
  disconnects : w.stack.count .disconnect = 0
  stage : Stage w.progress (w.poller.Registered w.heap w.self)
    (w.poller.Disabled w.heap w.self)

/-! ## Steps within a stage -/

theorem jobs_append (w : World T) (js : List Job) :
    ({ w with pending := w.pending ++ js } : World T).jobs = w.jobs ++ js := by
  cases hp : w.phase with
  | calling rest => simp only [jobs, hp, List.append_assoc]
  | _ => simp only [jobs, hp]

/-- A stage does not change with the poller, as long as the channel stays where it is. -/
theorem Stage.imp {p : Progress} {registered disabled registered' disabled' : Prop}
    (h : Stage p registered disabled) (hr : registered' ↔ registered)
    (hd : registered → disabled → disabled') : Stage p registered' disabled' := by
  cases h with
  | up hp reg => exact .up hp (hr.mpr reg)
  | closing hp reg dis => exact .closing hp (hr.mpr reg) (hd reg dis)
  | leaving hp reg dis => exact .leaving hp (hr.mpr reg) (hd reg dis)
  | gone hp reg => exact .gone hp (fun h => reg (hr.mp h))

theorem agrees_refl (h : Channels) : Poller.Agrees h h := fun _ => ⟨rfl, rfl, rfl⟩

/-- Two heaps agree where the channels have the same descriptor, index and events. -/
theorem agrees_heap (hothers : w'.others = w.others) (hself : w'.self = w.self)
    (hfd : w'.conn.channel.fd = w.conn.channel.fd)
    (hindex : w'.conn.channel.index = w.conn.channel.index)
    (hevents : w'.conn.channel.events = w.conn.channel.events) :
    Poller.Agrees w.heap w'.heap := by
  intro a
  by_cases ha : a = w.self
  · subst ha
    have heq := heap_self w'
    rw [hself] at heq
    rw [heap_self, heq]
    exact ⟨hfd, hindex, hevents⟩
  · have ha' : a ≠ w'.self := by
      rw [hself]
      exact ha
    rw [heap_of_ne w ha, heap_of_ne w' ha', hothers]
    exact ⟨rfl, rfl, rfl⟩

/-- A step that changes nothing that the stage looks at. -/
theorem Running.same (h : Running w) (hprogress : w'.progress = w.progress)
    (hloop : w'.sameLoop = w.sameLoop) (hpoller : w'.poller = w.poller)
    (hself : w'.self = w.self) (hheap : Poller.Agrees w.heap w'.heap)
    (hhandling : w'.conn.channel.eventHandling = true → ∃ rest, Frame.handlers rest ∈ w'.stack)
    (hquiet : ∀ j ∈ w'.jobs, j.quiet = true) (hdis : w'.stack.count .disconnect = 0) :
    Running w' where
  sameLoop := hloop.trans h.sameLoop
  wf := by
    rw [hpoller]
    exact h.wf.agrees hheap
  handling := hhandling
  quiet := hquiet
  disconnects := hdis
  stage := by
    rw [hprogress, hpoller, hself]
    apply Stage.imp h.stage
    · rw [Poller.Registered, (hheap w.self).1, Poller.Registered]
    · intro _ hd
      exact hd.agrees hheap

/-- Frames that are none of the tear-down come and go. -/
theorem Running.frames (h : Running w) {stack : List Frame}
    (hdue : ∀ f, f.due = true → stack.count f = w.stack.count f)
    (hhandlers : ∀ rest, Frame.handlers rest ∈ w.stack → ∃ rest', Frame.handlers rest' ∈ stack) :
    Running { w with stack := stack } := by
  refine h.same ?_ rfl rfl rfl (agrees_refl _) ?_ h.quiet ?_
  · simp only [progress, hdue .remove rfl, hdue .closeCallback rfl]
    rfl
  · intro hh
    obtain ⟨rest, hmem⟩ := h.handling hh
    exact hhandlers rest hmem
  · exact (hdue .disconnect rfl).trans h.disconnects

/-- A call that is no part of the tear-down changes no stage, -/
theorem Running.push (h : Running w) {f : Frame} (hf : f.due = false) :
    Running { w with stack := f :: w.stack } := by
  apply h.frames
  · intro g hg
    exact count_cons_due hg hf w.stack
  · intro rest hmem
    exact ⟨rest, List.mem_cons_of_mem _ hmem⟩

/-- and neither does its return. -/
theorem Running.pop (h : Running w) {f : Frame} {stack : List Frame} (hs : w.stack = f :: stack)
    (hf : f.due = false) (hne : ∀ rest, f ≠ .handlers rest) :
    Running { w with stack := stack } := by
  apply h.frames
  · intro g hg
    rw [hs, count_cons_due hg hf]
  · intro rest hmem
    rw [hs] at hmem
    rcases List.mem_cons.mp hmem with heq | hmem
    · exact absurd heq.symm (hne rest)
    · exact ⟨rest, hmem⟩

theorem jobs_performed (w : World T) (conn : TcpConnection) (p : Poller) (o : Channels)
    (js : List Job) : (w.performed conn p o js).jobs = w.jobs ++ js :=
  jobs_append w js

/-- The callbacks of the user are quiet, and destroy no connection. -/
theorem callbacks_quiet (hes : ∀ f, Effect.queueInLoop f ∈ es → f.isCallback = true) :
    (∀ j ∈ es.filterMap job, j.quiet = true) ∧
      (es.filterMap job).count (.conn .connectDestroyed) = 0 := by
  constructor
  · intro j hj
    obtain ⟨f, rfl, hf⟩ := mem_jobs_isCallback hes hj
    cases f <;> first | rfl | cases hf
  · apply List.count_eq_zero_of_not_mem
    intro hj
    obtain ⟨f, heq, hf⟩ := mem_jobs_isCallback hes hj
    cases heq
    cases hf

/-- What the poller is told keeps it well-formed. -/
theorem Base.told {conn : TcpConnection} {d : Prop} (h : Base w)
    (ht : Told { w with conn := conn } es d w')
    (hhandling : conn.channel.eventHandling = w.conn.channel.eventHandling)
    (hes : ∀ f, Effect.queueInLoop f ∈ es → f.isCallback = true) : Base w' := by
  obtain ⟨⟨k, p, o, rfl⟩, hwf, -, -⟩ := ht
  refine ⟨h.sameLoop, hwf, ?_, ?_⟩
  · intro hh
    exact h.handling (hhandling.symm.trans hh)
  · intro j hj
    rw [jobs_performed] at hj
    rcases List.mem_append.mp hj with hj | hj
    · exact h.quiet j hj
    · exact (callbacks_quiet hes).1 j hj

/-! ## Functions of the connection -/

/-- A connection that is connected or half-closed is up, whatever else is going on. -/
theorem Running.up_of_open (h : Running w)
    (hopen : w.conn.state = .kConnected ∨ w.conn.state = .kDisconnecting) :
    w.progress.Up ∧ w.poller.Registered w.heap w.self := by
  have hdown : ¬ w.progress.Down := by
    intro hd
    have hstate : w.conn.state = .kDisconnected := hd.state
    rcases hopen with hs | hs <;> rw [hs] at hstate <;> cases hstate
  cases h.stage with
  | up hp reg => exact ⟨hp, reg⟩
  | closing hp => exact absurd hp.toDown hdown
  | leaving hp => exact absurd hp.toDown hdown
  | gone hp => exact absurd hp.toDown hdown

/-- A function ends in a stage again, and fails no assertion of the tear-down. -/
def Sound (r : Except Assertion (World T)) : Prop := Ends Running (fun e => e.tearDown = false) r

/-- `sendInLoop` and `handleWrite` on an open connection. -/
theorem Running.writes_sound {conn : TcpConnection} (h : Running w)
    (hopen : w.conn.state = .kConnected ∨ w.conn.state = .kDisconnecting)
    (hw : TcpConnection.Writes w.conn conn es) : Sound (w.perform (.ok (conn, es))) := by
  obtain ⟨hup, hreg⟩ := h.up_of_open hopen
  have hsame : conn.channel.fd = w.conn.channel.fd ∧ conn.channel.index = w.conn.channel.index ∧
      conn.channel.eventHandling = w.conn.channel.eventHandling ∧
      conn.channel.isReading = w.conn.channel.isReading := by
    rcases hw.channel with hc | ⟨-, hc | hc⟩ <;> rw [hc]
    · exact ⟨rfl, rfl, rfl, rfl⟩
    · exact ⟨rfl, rfl, rfl, Channel.isReading_enableWriting _⟩
    · exact ⟨rfl, rfl, rfl, Channel.isReading_disableWriting _⟩
  obtain ⟨hfd, hindex, hhandling, hreading⟩ := hsame
  obtain ⟨w', hok, ht⟩ :=
    perform_registered _ h.wf hreg hfd hindex (hw.channel.symm.imp And.left id)
  rw [hok]
  have hbase := h.toBase.told ht hhandling hw.callbacks
  obtain ⟨⟨k, p, o, rfl⟩, -, hreg', -⟩ := ht
  refine ⟨hbase, h.disconnects,
    .up ⟨?_, ?_, hup.callbacks, hup.connections, hup.destroyed, ?_⟩ hreg'⟩
  · show conn.state = _ ∨ conn.state = _
    rw [hw.state]
    exact hopen
  · show conn.channel.isReading = true
    rw [hreading]
    exact hup.reading
  · refine ⟨hup.due.1, hup.due.2.1, ?_⟩
    show (jobs _).count _ = 0
    rw [jobs_performed, List.count_append, (callbacks_quiet hw.callbacks).2]
    exact hup.due.2.2

/-- There is nothing between open and closed once it has been established. -/
theorem Running.open_or_down (h : Running w) :
    (w.conn.state = .kConnected ∨ w.conn.state = .kDisconnecting) ∨ w.progress.Down := by
  cases h.stage with
  | up hp => exact Or.inl hp.state
  | closing hp => exact Or.inr hp.toDown
  | leaving hp => exact Or.inr hp.toDown
  | gone hp => exact Or.inr hp.toDown

/-- A failing assertion is sound where it is none of the tear-down. -/
theorem sound_check {c : Prop} [Decidable c] {e : Assertion}
    {f : Unit → Except Assertion (World T)} (he : ¬ c → e.tearDown = false)
    (hf : c → Sound (f ())) : Sound (check c e >>= f) :=
  Ends.check he hf

theorem sound_tcp {a : TcpConnection.Assertion} (ha : a ≠ .dtorState) :
    Sound (T := T) (.error (.tcp a)) := decide_eq_false ha

theorem sound_writing {a : TcpConnection.Assertion} (ha : a.writing = true) :
    Sound (T := T) (.error (.tcp a)) := sound_tcp (by rintro rfl; cases ha)

theorem Running.sendInLoop_sound (h : Running w)
    (hopen : w.conn.state = .kConnected ∨ w.conn.state = .kDisconnecting)
    (message : List Byte) (r : WriteResult) :
    Sound (w.perform (w.conn.sendInLoop message r)) := by
  cases hs : w.conn.sendInLoop message r with
  | error a => exact sound_writing (TcpConnection.sendInLoop_fails hs)
  | ok p => exact h.writes_sound hopen (TcpConnection.sendInLoop_writes hs)

theorem Running.handleWrite_sound (h : Running w) (r : WriteResult) :
    Sound (w.perform (w.conn.handleWrite r)) := by
  rcases h.open_or_down with hopen | hdown
  · cases hs : w.conn.handleWrite r with
    | error a => exact sound_writing (TcpConnection.handleWrite_fails hs)
    | ok p => exact h.writes_sound hopen (TcpConnection.handleWrite_writes hs)
  · -- a channel that watches nothing does not write
    have hnone : w.conn.channel.events = kNoneEvent := of_decide_eq_true hdown.noneEvent
    have hwriting : w.conn.channel.isWriting = false := by
      rw [Channel.isWriting_eq, hnone]
      rfl
    rw [TcpConnection.handleWrite, hwriting]
    exact h

/-- Another functor on the queue, `connectDestroyed` apart, is nothing that is due. -/
theorem Running.queue (h : Running w) {j : Job} (hj : j.quiet = true)
    (hne : j ≠ .conn .connectDestroyed) : Running (w.queue j) := by
  have hjobs : (w.queue j).jobs = w.jobs ++ [j] := jobs_append w [j]
  refine h.same ?_ rfl rfl rfl (agrees_refl _) h.handling ?_ h.disconnects
  · have hcount : (w.queue j).jobs.count (.conn .connectDestroyed) =
        w.jobs.count (.conn .connectDestroyed) := by
      rw [hjobs, List.count_append, List.count_singleton, if_neg (by simpa using hne), Nat.add_zero]
    simp only [progress, hcount]
    rfl
  · intro i hi
    rw [hjobs] at hi
    rcases List.mem_append.mp hi with hi | hi
    · exact h.quiet i hi
    · rw [List.mem_singleton.mp hi]
      exact hj

/-- `shutdown` leaves the connection up. -/
theorem Running.disconnecting (h : Running w)
    (hopen : w.conn.state = .kConnected ∨ w.conn.state = .kDisconnecting) :
    Running { w with conn := w.conn.setState .kDisconnecting } := by
  obtain ⟨hup, hreg⟩ := h.up_of_open hopen
  refine ⟨⟨h.sameLoop, h.wf, h.handling, h.quiet⟩, h.disconnects, .up ?_ hreg⟩
  exact { hup with state := Or.inr rfl }

theorem perform_shutdownInLoop (w : World T) (conn : TcpConnection) :
    w.perform (.ok (conn, conn.shutdownInLoop)) = .ok { w with conn := conn } := by
  unfold TcpConnection.shutdownInLoop
  cases conn.channel.isWriting with
  | false => rfl
  | true => rfl

/-- Each function that tests the state goes on with an open connection only. -/
theorem Call.open_of_test {c : Call} {conn : TcpConnection} (ht : c.test conn = true) :
    conn.state = .kConnected ∨ conn.state = .kDisconnecting := by
  cases c <;> simp [Call.test, TcpConnection.shutdownTest, TcpConnection.forceCloseTest] at ht <;>
    simp [ht]

/-- A call leaves an open connection open, and does nothing to another. -/
theorem Running.call_sound (h : Running w) (c : Call) (r : WriteResult) :
    Sound (w.call c r) := by
  unfold World.call
  split
  · rename_i ht
    have hopen := Call.open_of_test ht
    have hset := h.disconnecting hopen
    cases c with
    | shutdown =>
        simp only [callInLoop, perform_shutdownInLoop]
        exact hset
    | forceClose => exact hset.queue rfl (by rintro ⟨⟩)
    | forceCloseWithDelay =>
        exact hset.same rfl rfl rfl rfl (agrees_refl _) hset.handling hset.quiet hset.disconnects
    | send message => exact h.sendInLoop_sound hopen message r
  · exact h

/-! ## Closing -/

theorem handleClose_closed {conn : TcpConnection}
    (hopen : conn.state = .kConnected ∨ conn.state = .kDisconnecting) :
    conn.handleClose = .ok (conn.closed, [.updateChannel]) :=
  check_bind hopen _

/-- A second `handleClose` fails its assertion. -/
theorem handleClose_error (hclosed : ¬ (w.conn.state = .kConnected ∨
    w.conn.state = .kDisconnecting)) : w.handleClose = .error (.tcp .handleCloseState) := by
  have hfails : w.conn.handleClose = .error .handleCloseState := by
    unfold TcpConnection.handleClose
    rw [check_error hclosed]
    rfl
  unfold handleClose
  rw [hfails]
  rfl

theorem connectEstablished_established {conn : TcpConnection} (h : conn.state = .kConnecting) :
    conn.connectEstablished = .ok (conn.established, [.updateChannel]) :=
  check_bind h _

/-- So does a second `connectEstablished`. -/
theorem connectEstablished_error (h : w.conn.state ≠ .kConnecting) :
    w.connectEstablished = .error (.tcp .connectEstablishedState) := by
  have hfails : w.conn.connectEstablished = .error .connectEstablishedState := by
    unfold TcpConnection.connectEstablished
    rw [check_error h]
    rfl
  unfold connectEstablished
  rw [hfails]
  rfl

/-- `handleClose` and `connectDestroyed` close a connection in the same way. -/
theorem perform_closed (h : Base w) (hreg : w.poller.Registered w.heap w.self) :
    ∃ v, w.perform (.ok (w.conn.closed, [.updateChannel])) = .ok v ∧ Base v ∧
      (∃ k p o, v = w.performed (indexed w.conn.closed k) p o []) ∧
      v.poller.Registered v.heap v.self ∧ v.poller.Disabled v.heap v.self := by
  have hmem : Effect.updateChannel ∈ [Effect.updateChannel] := List.mem_singleton_self _
  obtain ⟨v, hok, ht⟩ := perform_registered w.conn.closed h.wf hreg rfl rfl (Or.inl hmem)
  refine ⟨v, hok, h.told ht rfl ?_, ht.eq, ht.registered, ?_⟩
  · intro f hf
    cases List.mem_singleton.mp hf
  · exact ht.disabled (Channel.isNoneEvent_disableAll _) (Or.inl hmem)

/-- More frames keep what holds at any time. -/
theorem Base.push (h : Base w) {stack : List Frame} (callbacks : List Bool) (closes : Nat)
    (hstack : ∀ f ∈ w.stack, f ∈ stack) :
    Base { w with stack := stack, callbacks := callbacks, closes := closes } := by
  refine ⟨h.sameLoop, h.wf, ?_, h.quiet⟩
  intro hh
  obtain ⟨rest, hmem⟩ := h.handling hh
  exact ⟨rest, hstack _ hmem⟩

theorem Running.handleClose_sound (h : Running w) : Sound w.handleClose := by
  rcases h.open_or_down with hopen | hdown
  · obtain ⟨hup, hreg⟩ := h.up_of_open hopen
    obtain ⟨v, hok, hbase, ⟨k, p, o, rfl⟩, hreg', hdis⟩ := perform_closed h.toBase hreg
    have hcallbacks : w.callbacks = [true] := hup.callbacks
    rw [← handleClose_closed hopen] at hok
    unfold handleClose
    rw [hok]
    refine ⟨hbase.push _ _ ?_, ?_, .closing ⟨⟨rfl, ?_, ?_⟩, hup.connections, hup.destroyed, ?_⟩
      hreg' hdis⟩
    · intro f hf
      exact List.mem_cons_of_mem _ (List.mem_cons_of_mem _ hf)
    · show (Frame.callback :: .closeCallback :: w.stack).count .disconnect = 0
      rw [List.count_cons_of_ne (by decide), List.count_cons_of_ne (by decide), h.disconnects]
    · exact Channel.isNoneEvent_disableAll w.conn.channel
    · show w.callbacks ++ [false] = [true, false]
      rw [hcallbacks]
      rfl
    · have hremoves : w.stack.count .remove = 0 := hup.due.1
      have hclose : w.stack.count .closeCallback = 0 := hup.due.2.1
      refine ⟨?_, ?_, ?_⟩
      · show (Frame.callback :: .closeCallback :: w.stack).count .remove = 0
        rw [List.count_cons_of_ne (by decide), List.count_cons_of_ne (by decide), hremoves]
      · show (Frame.callback :: .closeCallback :: w.stack).count .closeCallback = 1
        rw [List.count_cons_of_ne (by decide), List.count_cons_self, hclose]
      · have hjobs := jobs_performed w (indexed w.conn.closed k) p o []
        rw [List.append_nil] at hjobs
        show (w.performed (indexed w.conn.closed k) p o []).jobs.count _ = 0
        rw [hjobs]
        exact hup.due.2.2
  · -- the assertion on `state_` fails, which is none of the tear-down
    have hstate : w.conn.state = .kDisconnected := hdown.state
    have hclosed : ¬ (w.conn.state = .kConnected ∨ w.conn.state = .kDisconnecting) := by
      rw [hstate]
      rintro (hs | hs) <;> cases hs
    rw [handleClose_error hclosed]
    exact sound_tcp (by rintro ⟨⟩)

theorem Running.forceCloseInLoop_sound (h : Running w) : Sound w.forceCloseInLoop := by
  unfold forceCloseInLoop
  split
  · exact h.handleClose_sound
  · exact h

theorem Running.handle_sound (h : Running w) (e : Channel.Handler) (n : ReadResult)
    (r : WriteResult) : Sound (w.handle e n r) := by
  cases e with
  | close => exact h.handleClose_sound
  | error => exact h
  | read =>
      cases n with
      | data => exact h.push rfl
      | eof => exact h.handleClose_sound
      | error => exact h
  | write => exact h.handleWrite_sound r

/-! ## Removing the connection -/

/-- While the server lives, a call of `closeCallback_` is due on a closing connection only. -/
theorem Running.closing_of_due (h : Running w) (halive : w.serverAlive = true)
    (hdue : 0 < w.stack.count .closeCallback) :
    w.progress.Closing ∧ w.poller.Registered w.heap w.self ∧
      w.poller.Disabled w.heap w.self := by
  cases h.stage with
  | up hp =>
      have hzero : w.stack.count .closeCallback = 0 := hp.due.2.1
      omega
  | closing hp hr hd => exact ⟨hp, hr, hd⟩
  | leaving hp =>
      have hzero : w.stack.count .closeCallback = 0 := hp.dead halive
      omega
  | gone hp =>
      have hzero : w.stack.count .closeCallback = 0 := hp.dead halive
      omega

/-- `closeCallback_` finds the connection, and posts its `connectDestroyed`. -/
theorem Running.closeCallback_sound (h : Running w) {stack : List Frame}
    (hs : w.stack = .closeCallback :: stack) :
    Sound ({ w with stack := stack } : World T).closeCallback := by
  unfold closeCallback
  rw [if_pos h.sameLoop]
  refine sound_check (fun _ => rfl) ?_
  intro halive
  have hcount : w.stack.count .closeCallback = stack.count .closeCallback + 1 := by
    rw [hs, List.count_cons_self]
  obtain ⟨hp, hreg, hdis⟩ := h.closing_of_due halive (by omega)
  refine sound_check (fun _ => rfl) ?_
  intro _
  have hjobs := jobs_append w [.conn .connectDestroyed]
  have hremoves : stack.count .remove = 0 := by
    rw [← hp.due.1, progress, hs, List.count_cons_of_ne (by decide)]
  have hcloses : stack.count .closeCallback = 0 := by
    have hone : w.stack.count .closeCallback = 1 := hp.due.2.1
    omega
  refine ⟨⟨h.sameLoop, h.wf, ?_, ?_⟩, ?_, .leaving ⟨⟨hp.state, hp.noneEvent, hp.callbacks⟩, rfl,
    hp.destroyed, ?_, fun _ => hcloses⟩ hreg hdis⟩
  · exact h.handling_pop hs rfl
  · intro j hj
    have hj' : j ∈ w.jobs ++ [.conn .connectDestroyed] := hjobs ▸ hj
    rcases List.mem_append.mp hj' with hj' | hj'
    · exact h.quiet j hj'
    · rw [List.mem_singleton.mp hj']
      rfl
  · have hdisc := h.disconnects
    rw [hs, List.count_cons_of_ne (by decide)] at hdisc
    exact hdisc
  · have hone : ({ w with pending := w.pending ++ [.conn .connectDestroyed] } : World T).jobs.count
        (.conn .connectDestroyed) = 1 := by
      have hzero : w.jobs.count (.conn .connectDestroyed) = 0 := hp.due.2.2
      rw [hjobs, List.count_append, hzero]
      rfl
    show stack.count .remove + _ = 1
    rw [hremoves, Nat.zero_add]
    exact hone

/-- Only a connection that is leaving has a `channel_->remove()` in front of it. -/
theorem Running.leaving_of_due (h : Running w)
    (hdue : 0 < w.stack.count .remove + w.jobs.count (.conn .connectDestroyed)) :
    w.progress.Leaving ∧ w.poller.Registered w.heap w.self ∧
      w.poller.Disabled w.heap w.self := by
  cases h.stage with
  | up hp =>
      have hr : w.stack.count .remove = 0 := hp.due.1
      have hd : w.jobs.count (.conn .connectDestroyed) = 0 := hp.due.2.2
      omega
  | closing hp =>
      have hr : w.stack.count .remove = 0 := hp.due.1
      have hd : w.jobs.count (.conn .connectDestroyed) = 0 := hp.due.2.2
      omega
  | leaving hp hr hd => exact ⟨hp, hr, hd⟩
  | gone hp =>
      have hz : w.stack.count .remove + w.jobs.count (.conn .connectDestroyed) = 0 := hp.due
      omega

/-- The poller forgets a channel that watches nothing. -/
theorem removeChannel_gone (w : World T) (hwf : w.poller.WF w.heap)
    (hreg : w.poller.Registered w.heap w.self) (hnone : w.conn.channel.isNoneEvent = true)
    (hdis : w.poller.Disabled w.heap w.self) :
    ∃ r, w.poller.removeChannel w.self w.heap = .ok r ∧ r.1.WF r.2 ∧
      ¬ r.1.Registered r.2 w.self ∧ ∃ k, r.2 w.self = { w.conn.channel with index := k } := by
  rw [← heap_self w] at hnone
  obtain ⟨p, h, hok, hwf', hrem, -⟩ := Poller.removeChannel_spec hwf hreg hnone hdis
  obtain ⟨k, hk⟩ := hrem.same w.self
  refine ⟨(p, h), hok, hwf', ?_, k, ?_⟩
  · show ¬ p.channels.lookup (h w.self).fd = some w.self
    rw [hk, hrem.lookup, if_pos rfl]
    rintro ⟨⟩
  · rw [← heap_self w]
    exact hk

/-- `channel_->remove()` succeeds, unless the assertion of `EventLoop::removeChannel` fails. -/
theorem Running.channelRemove_sound (h : Running w) {stack : List Frame}
    (hs : w.stack = .remove :: stack) :
    Sound ({ w with stack := stack } : World T).channelRemove := by
  have hcount : w.stack.count .remove = stack.count .remove + 1 := by
    rw [hs, List.count_cons_self]
  obtain ⟨hp, hreg, hdis⟩ := h.leaving_of_due (by omega)
  have hdue : w.stack.count .remove + w.jobs.count (.conn .connectDestroyed) = 1 := hp.due
  unfold channelRemove
  refine sound_check (fun hc => absurd hp.noneEvent hc) ?_
  intro _
  refine sound_check (fun _ => rfl) ?_
  intro _
  -- the poller looks at none of what has changed
  have hagrees : Poller.Agrees w.heap (clearAdded { w with stack := stack }).heap :=
    agrees_heap rfl rfl rfl rfl rfl
  obtain ⟨⟨p, o⟩, hok, hwf, hgone, k, hk⟩ := removeChannel_gone
    (clearAdded { w with stack := stack }) (h.wf.agrees hagrees) (hreg.agrees hagrees)
    hp.noneEvent (hdis.agrees hagrees)
  have hheap := setPoller_heap (clearAdded { w with stack := stack }) p o
  have hk' : o w.self = { w.conn.channel with index := k, addedToLoop := false } := hk
  rw [hok]
  refine ⟨⟨h.sameLoop, ?_, ?_, h.quiet⟩, ?_, .gone ⟨⟨hp.state, ?_, hp.callbacks⟩, ?_,
    hp.connections, rfl, ?_, ?_⟩ ?_⟩
  · show p.WF (setPoller (clearAdded { w with stack := stack }) (p, o)).heap
    rw [hheap]
    exact hwf
  · show (o w.self).eventHandling = true → _
    rw [hk']
    exact h.handling_pop hs rfl
  · have hdisc := h.disconnects
    rw [hs, List.count_cons_of_ne (by decide)] at hdisc
    exact hdisc
  · show (o w.self).isNoneEvent = true
    rw [hk']
    exact hp.noneEvent
  · show (o w.self).addedToLoop = false
    rw [hk']
  · show stack.count .remove + w.jobs.count (.conn .connectDestroyed) = 0
    omega
  · intro halive
    have hzero : w.stack.count .closeCallback = 0 := hp.dead halive
    rw [hs, List.count_cons_of_ne (by decide)] at hzero
    exact hzero
  · show ¬ p.Registered (setPoller (clearAdded { w with stack := stack }) (p, o)).heap w.self
    rw [hheap]
    exact hgone

end World

end Connection

end Zing.Net
