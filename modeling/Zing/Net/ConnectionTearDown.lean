import Zing.Net.ConnectionLife

set_option autoImplicit false

/-! # Tear-down on one loop

The invariant of a connection whose server runs on the same loop: `Life` adds to the stages the
time in front of `connectEstablished` and the middle of `connectDestroyed`, in both of which
the loop thread has only one thing to do. A step keeps it unless `~TcpServer` finds the
connection half closed, in `kDisconnecting`: `connectDestroyed` then neither disables the
channel nor leaves this to `handleClose`.
-/

namespace Zing.Net.Connection

open Zing.Lib
open TcpConnection (Functor Effect StateE)

variable {T : Type} {w w' : World T}

/-- How far the connection is: in front of its first stage (`connecting`), in the middle of a
`connectDestroyed` that has found it connected (`destroying`), or in one of the stages of
`Net/ConnectionLife`, which are `up`, `closing`, `leaving` and `gone` (`running`). -/
inductive Life (w : World T) : Prop
  | connecting (h : w.Connecting)
  | destroying (h : w.Destroying)
  | running (h : w.Running)

namespace World

/-! ## From one stage to the next

The four steps that take the connection further: `~TcpServer`, the rest of `connectDestroyed`,
`connectEstablished`, and the destructor. Each is proved by cases on the stage that it finds. -/

/-- `~TcpServer` does nothing for a connection that is no longer in the map. -/
theorem destroyServer_of_removed (hconn : w.connections = false) :
    w.destroyServer = { w with serverAlive := false, connections := false } := by
  simp only [destroyServer, hconn]
  rfl

/-- `~TcpServer`, unless it finds the connection half closed. -/
theorem Running.destroyServer_life (h : Running w)
    (hclosed : w.connections = true → w.conn.state ≠ .kDisconnecting) : Life w.destroyServer := by
  cases h.stage with
  | up hp hr =>
      have hconn : w.connections = true := hp.connections
      -- a half-closed connection would be left to `remove` with its channel enabled
      have hstate : w.conn.state = .kConnected := hp.state.resolve_right (hclosed hconn)
      have heq : w.destroyServer = { w with
          stack := .disconnect :: w.stack, serverAlive := false, connections := false } := by
        simp only [destroyServer, hconn, h.sameLoop, if_true, connectDestroyed, hstate]
      rw [heq]
      refine .destroying ⟨⟨h.sameLoop, h.wf, ?_, h.quiet⟩, ?_, hr, hp.callbacks, rfl, hp.destroyed,
        hp.due.2.2⟩
      · exact h.handling_push _
      · exact ⟨w.stack, rfl, h.disconnects, hp.due.1, hp.due.2.1⟩
  | closing hp hr hd =>
      have hconn : w.connections = true := hp.connections
      have hstate : w.conn.state = .kDisconnected := hp.state
      have heq : w.destroyServer = { w with
          stack := .remove :: w.stack, serverAlive := false, connections := false } := by
        simp only [destroyServer, hconn, h.sameLoop, if_true, connectDestroyed, hstate]
        rfl
      rw [heq]
      refine .running ⟨⟨h.sameLoop, h.wf, ?_, h.quiet⟩, ?_, .leaving ⟨⟨hp.state, hp.noneEvent,
        hp.callbacks⟩, rfl, hp.destroyed, ?_, ?_⟩ hr hd⟩
      · exact h.handling_push _
      · show (Frame.remove :: w.stack).count .disconnect = 0
        rw [List.count_cons_of_ne (by decide), h.disconnects]
      · have hremoves : w.stack.count .remove = 0 := hp.due.1
        have hjobs : w.jobs.count (.conn .connectDestroyed) = 0 := hp.due.2.2
        show (Frame.remove :: w.stack).count .remove + w.jobs.count (.conn .connectDestroyed) = 1
        rw [List.count_cons_self, hremoves, hjobs]
      · rintro ⟨⟩
  -- the server has no entry for it any more
  | leaving hp hr hd =>
      rw [destroyServer_of_removed hp.connections]
      refine .running ⟨⟨h.sameLoop, h.wf, h.handling, h.quiet⟩, h.disconnects,
        .leaving ⟨⟨hp.state, hp.noneEvent, hp.callbacks⟩, rfl, hp.destroyed, hp.due, ?_⟩ hr hd⟩
      rintro ⟨⟩
  | gone hp hr =>
      rw [destroyServer_of_removed hp.connections]
      refine .running ⟨⟨h.sameLoop, h.wf, h.handling, h.quiet⟩, h.disconnects,
        .gone ⟨⟨hp.state, hp.noneEvent, hp.callbacks⟩, hp.added, rfl, hp.destroyed, hp.due, ?_⟩ hr⟩
      rintro ⟨⟩

/-- `connectDestroyed` disconnects a connected connection, with its callback. -/
theorem Destroying.disconnect_sound (h : Destroying w) {stack : List Frame}
    (hs : w.stack = .disconnect :: stack) :
    Sound ({ w with stack := stack } : World T).disconnect := by
  obtain ⟨rest, hrest, hdisc, hremoves, hcloses⟩ := h.stack
  rw [hs] at hrest
  cases hrest
  have hbase : Base { w with stack := stack } :=
    ⟨h.sameLoop, h.wf, h.handling_pop hs rfl, h.quiet⟩
  obtain ⟨v, hok, hbase', ⟨k, p, o, rfl⟩, hreg, hdis⟩ := perform_closed hbase h.registered
  have hjobs := jobs_performed w (indexed w.conn.closed k) p o []
  rw [List.append_nil] at hjobs
  have hperform : ({ w with stack := stack } : World T).perform
      (.ok w.conn.connectDestroyedConnected) = _ := hok
  unfold disconnect
  rw [hperform]
  refine ⟨hbase'.push _ _ ?_, ?_, .leaving ⟨⟨rfl, ?_, ?_⟩, h.connections, h.destroyed, ?_, ?_⟩ hreg
    hdis⟩
  · intro f hf
    exact List.mem_cons_of_mem _ (List.mem_cons_of_mem _ hf)
  · show (Frame.callback :: .remove :: stack).count .disconnect = 0
    rw [List.count_cons_of_ne (by decide), List.count_cons_of_ne (by decide), hdisc]
  · exact Channel.isNoneEvent_disableAll w.conn.channel
  · show w.callbacks ++ [false] = [true, false]
    rw [h.callbacks]
    rfl
  · show (Frame.callback :: .remove :: stack).count .remove +
      (w.performed (indexed w.conn.closed k) p o []).jobs.count _ = 1
    rw [List.count_cons_of_ne (by decide), List.count_cons_self, hremoves, hjobs, h.jobs]
  · intro _
    show (Frame.callback :: .remove :: stack).count .closeCallback = 0
    rw [List.count_cons_of_ne (by decide), List.count_cons_of_ne (by decide), hcloses]

/-- `connectEstablished` registers the new channel, and tells the user. -/
theorem Connecting.connectEstablished_sound (h : Connecting w) {stack : List Frame}
    (hs : w.stack = .establish :: stack) :
    Sound ({ w with stack := stack } : World T).connectEstablished := by
  rw [h.stack] at hs
  cases hs
  have hchannel : w.heap w.self = w.conn.channel := heap_self w
  obtain ⟨v, hok, ⟨k, p, o, rfl⟩, hwf, hreg, -⟩ := updateChannel_ok (h := w.heap)
    (w := { w with stack := [.user], conn := w.conn.established })
    h.wf (Or.inl h.fresh) (Function.update_idem ..).symm (by rw [hchannel]; rfl)
    (by rw [hchannel]; rfl)
  have hperform : ({ w with stack := [.user] } : World T).perform w.conn.connectEstablished =
      .ok (({ w with stack := [.user] } : World T).performed (indexed w.conn.established k) p o
        []) := by
    rw [connectEstablished_established h.state]
    show (World.updateChannel _ >>= fun w => Except.ok w) = _
    rw [hok]
    rfl
  have hjobs := jobs_performed w (indexed w.conn.established k) p o []
  rw [List.append_nil] at hjobs
  unfold connectEstablished
  rw [hperform]
  refine ⟨⟨h.sameLoop, hwf, ?_, ?_⟩, rfl, .up ⟨Or.inl rfl, ?_, ?_, h.connections, h.destroyed,
    rfl, rfl, ?_⟩ hreg⟩
  · intro hh
    obtain ⟨rest, hmem⟩ := h.handling hh
    rw [h.stack] at hmem
    simp at hmem
  · intro j hj
    have hj' : j ∈ (w.performed (indexed w.conn.established k) p o []).jobs := hj
    rw [hjobs] at hj'
    exact h.quiet j hj'
  · exact Channel.isReading_enableReading w.conn.channel.tie
  · show w.callbacks ++ [true] = [true]
    rw [h.callbacks]
    rfl
  · show (w.performed (indexed w.conn.established k) p o []).jobs.count _ = 0
    rw [hjobs]
    exact h.jobs

/-- The poller works for another channel. -/
theorem Running.setPoller (h : Running w) {r : Poller × Channels} (hs : w.Spares r) :
    Running (w.setPoller r) := by
  obtain ⟨k, hk⟩ := hs.self
  have hheap : (w.setPoller r).heap = r.2 := setPoller_heap w r.1 r.2
  have hprogress : (w.setPoller r).progress = w.progress := by
    simp only [progress, World.setPoller, hk]
    rfl
  refine ⟨⟨h.sameLoop, ?_, ?_, h.quiet⟩, h.disconnects, ?_⟩
  · rw [hheap]
    exact hs.wf
  · show (r.2 w.self).eventHandling = true → _
    rw [hk]
    exact h.handling
  · rw [hprogress, hheap]
    refine Stage.imp h.stage ?_ hs.disabled
    show r.1.channels.lookup (r.2 w.self).fd = _ ↔ w.poller.channels.lookup (w.heap w.self).fd = _
    rw [hk, heap_self]
    exact Eq.congr_left hs.lookup

/-- An update of another channel of the loop, which finds it as it should be. -/
theorem Running.updateOther_sound (h : Running w) {a : ChannelPtr} {c : Channel}
    (hc : w.mayUpdateOther a c) :
    Sound (do
      let r ← nested .pollerUpdate (w.poller.updateChannel a (Function.update w.heap a c))
      .ok (w.setPoller r)) := by
  obtain ⟨r, hok, hs⟩ := updateOther_spares h.wf hc
  rw [hok]
  exact h.setPoller hs

/-- A connection without an owner is gone, and its destructor finds it so. -/
theorem Running.dtor_sound (h : Running w) (hu : w.unowned = true) : Sound w.dtor := by
  simp only [unowned, Bool.and_eq_true, Bool.not_eq_true', decide_eq_true_eq] at hu
  obtain ⟨⟨⟨⟨hconn, -⟩, -⟩, hstack⟩, hjobs⟩ := hu
  -- without an owner there is nothing on the stack or in a queue that holds one
  have huser : ∀ f ∈ w.stack, f = .user := by
    intro f hf
    exact of_decide_eq_true (List.all_eq_true.mp hstack f hf)
  have hremoves : w.stack.count .remove = 0 := by
    apply List.count_eq_zero_of_not_mem
    intro hmem
    cases huser _ hmem
  have hdestroys : w.jobs.count (.conn .connectDestroyed) = 0 := by
    apply List.count_eq_zero_of_not_mem
    intro hmem
    cases List.all_eq_true.mp hjobs _ hmem
  cases h.stage with
  | up hp =>
      have hconn' : w.connections = true := hp.connections
      rw [hconn] at hconn'
      cases hconn'
  | closing hp =>
      have hconn' : w.connections = true := hp.connections
      rw [hconn] at hconn'
      cases hconn'
  | leaving hp =>
      -- what is due holds the connection
      have hdue : w.stack.count .remove + w.jobs.count (.conn .connectDestroyed) = 1 := hp.due
      omega
  | gone hp hr =>
      -- the three assertions of `~Channel`
      have hhandling : w.conn.channel.eventHandling = false := by
        apply Bool.eq_false_iff.mpr
        intro hh
        obtain ⟨rest, hmem⟩ := h.handling hh
        cases huser _ hmem
      have hadded : w.conn.channel.addedToLoop = false := hp.added
      have hforgotten : w.poller.hasChannel w.self w.heap = false := by
        apply Bool.eq_false_iff.mpr
        intro hh
        exact hr (Poller.hasChannel_iff.mp hh)
      have hdtor : w.conn.dtor = .ok () := check_ok hp.state
      have heq : w.dtor = .ok { w with dead := true } := by
        unfold World.dtor
        rw [hdtor, nested_ok, ok_bind, check_bind hhandling, check_bind hadded,
          check_bind hforgotten]
      rw [heq]
      exact h.same rfl rfl rfl rfl (agrees_refl _) h.handling h.quiet h.disconnects

/-! ## The other steps

These leave the connection in its stage, or take it from `up` to `closing` by way of
`handleClose`, and from there to `leaving` by `closeCallback_`. -/

/-- A functor is called. -/
theorem Running.nextJob_sound (h : Running w) {j : Job} {rest : List Job} (r : WriteResult)
    (hp : w.phase = .calling (j :: rest)) :
    Sound (({ w with phase := .calling rest } : World T).runJob j r) := by
  have hjobs : w.jobs = j :: (rest ++ w.pending) := by
    simp only [jobs, hp]
    rfl
  have hquiet : ∀ i ∈ rest ++ w.pending, i.quiet = true := by
    intro i hi
    apply h.quiet i
    rw [hjobs]
    exact List.mem_cons_of_mem j hi
  have hj : j.quiet = true := by
    apply h.quiet j
    rw [hjobs]
    exact List.mem_cons_self ..
  by_cases hd : j = .conn .connectDestroyed
  · -- only a connection that is leaving has such a functor
    subst hd
    have hcount : w.jobs.count (.conn .connectDestroyed) =
        (rest ++ w.pending).count (.conn .connectDestroyed) + 1 := by
      rw [hjobs, List.count_cons_self]
    obtain ⟨hl, hreg, hdis⟩ := h.leaving_of_due (by omega)
    have hstate : w.conn.state = .kDisconnected := hl.state
    have hdue : w.stack.count .remove + w.jobs.count (.conn .connectDestroyed) = 1 := hl.due
    have heq : ({ w with phase := .calling rest } : World T).connectDestroyed =
        { w with phase := .calling rest, stack := .remove :: w.stack } := by
      simp only [connectDestroyed, hstate]
      rfl
    show Sound (.ok (connectDestroyed _))
    rw [heq]
    refine ⟨⟨h.sameLoop, h.wf, ?_, hquiet⟩, ?_, .leaving ⟨⟨hl.state, hl.noneEvent, hl.callbacks⟩,
      hl.connections, hl.destroyed, ?_, ?_⟩ hreg hdis⟩
    · exact h.handling_push _
    · show (Frame.remove :: w.stack).count .disconnect = 0
      rw [List.count_cons_of_ne (by decide), h.disconnects]
    · show (Frame.remove :: w.stack).count .remove +
        (rest ++ w.pending).count (.conn .connectDestroyed) = 1
      rw [List.count_cons_self]
      omega
    · intro halive
      show (Frame.remove :: w.stack).count .closeCallback = 0
      rw [List.count_cons_of_ne (by decide)]
      exact hl.dead halive
  -- any other functor leaves the stage to the function that it calls
  · have hnext : Running { w with phase := .calling rest } := by
      refine h.same ?_ rfl rfl rfl (agrees_refl _) h.handling hquiet h.disconnects
      have hcount : ({ w with phase := .calling rest } : World T).jobs.count
          (.conn .connectDestroyed) = w.jobs.count (.conn .connectDestroyed) := by
        rw [hjobs, List.count_cons_of_ne hd]
        rfl
      simp only [progress, hcount]
    cases j with
    | user => exact hnext.push rfl
    | connectEstablished => cases hj
    | conn f =>
        cases f with
        | forceCloseInLoop => exact hnext.forceCloseInLoop_sound
        | forceCloseTimer =>
            exact hnext.same rfl rfl rfl rfl (agrees_refl _) hnext.handling hquiet hnext.disconnects
        | connectDestroyed => exact absurd rfl hd
        | writeCompleteCallback => exact hnext.push rfl
        | highWaterMarkCallback n => exact hnext.push rfl
        | _ => cases hj

/-- `connectEstablished` is not called again: its assertion on `state_` would fail. -/
theorem Running.connectEstablished_sound (h : Running w) (stack : List Frame) :
    Sound ({ w with stack := stack } : World T).connectEstablished := by
  have hstate : w.conn.state ≠ .kConnecting := by
    intro hs
    rcases h.open_or_down with (ho | ho) | hd
    · rw [hs] at ho
      cases ho
    · rw [hs] at ho
      cases ho
    · have hd' : w.conn.state = .kDisconnected := hd.state
      rw [hs] at hd'
      cases hd'
  rw [connectEstablished_error (w := { w with stack := stack }) hstate]
  exact sound_tcp (by rintro ⟨⟩)

/-- `handleEvent` is at its end, and is no longer in its channel. -/
theorem Running.handled (h : Running w) {stack : List Frame}
    (hs : w.stack = .handlers [] :: stack) : Running (w.handled stack) := by
  have hdue : ∀ f, f.due = true → stack.count f = w.stack.count f := by
    intro f hf
    rw [hs, count_cons_due hf rfl]
  refine h.same ?_ rfl rfl rfl (agrees_heap rfl rfl rfl rfl rfl) (by rintro ⟨⟩) h.quiet
    ((hdue _ rfl).trans h.disconnects)
  show progress _ = _
  simp only [progress, World.handled, hdue .remove rfl, hdue .closeCallback rfl]
  rfl

/-- `handleEvent` goes to the next of its callbacks. -/
theorem Running.handlers (h : Running w) {e : Channel.Handler} {rest : List Channel.Handler}
    {stack : List Frame} (hs : w.stack = .handlers (e :: rest) :: stack) :
    Running { w with stack := .handlers rest :: stack } := by
  apply h.frames
  · intro f hf
    rw [hs, count_cons_due hf rfl, count_cons_due hf rfl]
  · intro _ _
    exact ⟨rest, List.mem_cons_self ..⟩

/-- The loop goes on to its next phase, with the functors that it has. -/
theorem Running.phase (h : Running w) {phase : Phase} {pending : List Job}
    (hjobs : ({ w with phase := phase, pending := pending } : World T).jobs = w.jobs) :
    Running { w with phase := phase, pending := pending } := by
  refine h.same ?_ rfl rfl rfl (agrees_refl _) h.handling ?_ h.disconnects
  · simp only [progress, hjobs]
  · rw [hjobs]
    exact h.quiet

/-- `loop` calls `handleEvent` of a channel: of this one, or of another whose callbacks are code
of the user. -/
theorem Running.handleEvent_sound (h : Running w) (a : ChannelPtr) :
    Sound (w.handleEvent a) := by
  unfold handleEvent
  split
  · refine sound_check (fun _ => rfl) ?_
    intro _
    refine (h.push (f := .handlers w.conn.channel.handlers) rfl).same rfl rfl rfl rfl
      (agrees_heap rfl rfl rfl rfl rfl) ?_ h.quiet ?_
    · intro _
      exact ⟨_, List.mem_cons_self ..⟩
    · exact (count_cons_due rfl rfl w.stack).trans h.disconnects
  · exact h.push rfl

end World

open World

/-- The steps of a single loop on which the user makes the calls that close a connection, and
sends. -/
def Action.onLoop : Action T → Bool
  | .startRead => false
  | .stopRead => false
  | .test _ _ => false
  | .set _ => false
  | .post _ => false
  | _ => true

/-- `~TcpServer` does not find the connection half closed. -/
structure InTime (w : World T) (a : Action T) : Prop where
  onLoop : a.onLoop = true
  closed : a = .destroyServer → w.connections = true → w.conn.state ≠ .kDisconnecting

variable [DecidableEq T] {a : Action T} {r : Except Assertion (World T)}

/-- By cases on the step. The condition says two things: which steps are those of one loop, and
that `~TcpServer` does not find the connection half closed. No other step leaves the stages. -/
theorem World.Running.step (h : Running w) (hin : InTime w a) (hm : Moves w a r) :
    Ends Life (fun e => e.tearDown = false) r := by
  have hlife : ∀ {r : Except Assertion (World T)}, Sound r →
      Ends Life (fun e => e.tearDown = false) r :=
    fun hr => hr.mono (fun _ => Life.running) fun _ he => he
  cases hm with
  | call => exact hlife (h.call_sound _ _)
  | startRead => cases hin.onLoop
  | stopRead => cases hin.onLoop
  | timerDead =>
      exact .running (h.same rfl rfl rfl rfl (agrees_refl _) h.handling h.quiet h.disconnects)
  | timer =>
      have h' : Running { w with timers := w.timers - 1 } :=
        h.same rfl rfl rfl rfl (agrees_refl _) h.handling h.quiet h.disconnects
      exact hlife (h'.call_sound _ _)
  | destroyServer => exact h.destroyServer_life (hin.closed rfl)
  | updateOther _ hc => exact hlife (h.updateOther_sound hc)
  | removeOther _ ha hr => exact .running (h.setPoller (removeOther_spares h.wf ha hr))
  | userReturns hs => exact .running (h.pop hs rfl (by rintro _ ⟨⟩))
  | callbackReturns hs => exact .running (h.pop hs rfl (by rintro _ ⟨⟩))
  | establish => exact hlife (h.connectEstablished_sound _)
  | closeCallback hs => exact hlife (h.closeCallback_sound hs)
  | disconnect hs =>
      -- a running connection is in no `connectDestroyed`
      have hcount := h.disconnects
      rw [hs, List.count_cons_self] at hcount
      exact absurd hcount (Nat.succ_ne_zero _)
  | remove hs => exact hlife (h.channelRemove_sound hs)
  | handle hs => exact hlife ((h.handlers hs).handle_sound _ _ _)
  | handlersDone hs => exact .running (h.handled hs)
  -- `revents_` is written, which no stage speaks of
  | @poll active revents hp =>
      have hphase : Running { w with phase := .handling active none active } :=
        h.phase (by simp only [jobs, hp])
      exact .running (hphase.same rfl rfl rfl rfl (agrees_heap rfl rfl rfl rfl rfl)
        hphase.handling hphase.quiet hphase.disconnects)
  | nextChannel hp => exact hlife ((h.phase (by simp only [jobs, hp])).handleEvent_sound _)
  | handled hp => exact .running (h.phase (by simp only [jobs, hp, List.append_nil]))
  | nextJob hp => exact hlife (h.nextJob_sound _ hp)
  | jobsDone hp => exact .running (h.phase (by simp only [jobs, hp, List.nil_append]))
  | queueUser => exact .running (h.queue rfl (by rintro ⟨⟩))
  | test => cases hin.onLoop
  | set => cases hin.onLoop
  | post => cases hin.onLoop
  | baseRemove hl =>
      rw [h.sameLoop] at hl
      cases hl
  | baseDestroyServer hl =>
      rw [h.sameLoop] at hl
      cases hl
  | destruct _ hu => exact hlife (h.dtor_sound hu)

/-- In front of `connectEstablished` and of the rest of `connectDestroyed` the loop thread has
nothing else to do. -/
theorem Moves.blocked {f : Frame} {stack : List Frame} (hm : Moves w a r)
    (hl : w.sameLoop = true) (hin : InTime w a) (hs : w.stack = f :: stack)
    (hf : f = .establish ∨ f = .disconnect) :
    r = .ok (w.queue .user) ∨
      f = .establish ∧ r = ({ w with stack := stack } : World T).connectEstablished ∨
      f = .disconnect ∧ r = ({ w with stack := stack } : World T).disconnect := by
  have hu : w.userCode = false := by
    unfold userCode
    rw [hs]
    rcases hf with rfl | rfl <;> rfl
  have hb : w.between = false := by
    unfold between
    rw [hs]
    rfl
  have howned : w.unowned = false := by
    unfold unowned
    rw [hs]
    rcases hf with rfl | rfl <;> simp
  cases hm with
  | call hu' | startRead hu' | stopRead hu' | destroyServer hu' | updateOther hu'
  | removeOther hu' =>
      rw [hu] at hu'
      cases hu'
  | poll _ hb' | nextChannel _ hb' | handled _ hb' | nextJob _ hb' | jobsDone _ hb' =>
      rw [hb] at hb'
      cases hb'
  | timerDead hs' | timer hs' | userReturns hs' | callbackReturns hs' | closeCallback hs'
  | remove hs' | handle hs' | handlersDone hs' =>
      rw [hs] at hs'
      cases hs'
      rcases hf with hf | hf <;> cases hf
  | establish hs' =>
      rw [hs] at hs'
      cases hs'
      exact Or.inr (Or.inl ⟨rfl, rfl⟩)
  | disconnect hs' =>
      rw [hs] at hs'
      cases hs'
      exact Or.inr (Or.inr ⟨rfl, rfl⟩)
  | queueUser => exact Or.inl rfl
  | test | set | post => cases hin.onLoop
  | baseRemove hl' | baseDestroyServer hl' =>
      rw [hl] at hl'
      cases hl'
  | destruct _ hu' =>
      rw [howned] at hu'
      cases hu'

omit [DecidableEq T] in
/-- A functor of the user is none of the connection's. -/
theorem World.Base.queue_user (h : Base w) : Base (w.queue .user) := by
  refine ⟨h.sameLoop, h.wf, h.handling, ?_⟩
  intro j hj
  have hj' : j ∈ w.jobs ++ [.user] := jobs_append w [.user] ▸ hj
  rcases List.mem_append.mp hj' with hj' | hj'
  · exact h.quiet j hj'
  · rw [List.mem_singleton.mp hj']
    rfl

omit [DecidableEq T] in
/-- It is no `connectDestroyed` either. -/
theorem count_queue_user (w : World T) : (w.queue .user).jobs.count (.conn .connectDestroyed) =
    w.jobs.count (.conn .connectDestroyed) := by
  rw [show (w.queue .user).jobs = w.jobs ++ [.user] from jobs_append w [.user],
    List.count_append]
  rfl

/-- By how far the connection is. In front of `connectEstablished`, and in the middle of
`connectDestroyed`, there is only one step but for the functors that the user queues. -/
theorem Life.step (h : Life w) (hin : InTime w a) (hm : Moves w a r) :
    Ends Life (fun e => e.tearDown = false) r := by
  cases h with
  | running h => exact h.step hin hm
  | connecting h =>
      rcases hm.blocked h.sameLoop hin h.stack (Or.inl rfl) with rfl | ⟨-, rfl⟩ | ⟨hf, -⟩
      · refine .connecting ⟨h.toBase.queue_user, h.stack, h.state, h.fresh, h.callbacks,
          h.connections, h.destroyed, ?_⟩
        rw [count_queue_user]
        exact h.jobs
      · exact (h.connectEstablished_sound h.stack).mono (fun _ => Life.running) fun _ he => he
      · cases hf
  | destroying h =>
      obtain ⟨stack, hs, -⟩ := h.stack
      rcases hm.blocked h.sameLoop hin hs (Or.inr rfl) with rfl | ⟨hf, -⟩ | ⟨-, rfl⟩
      · refine .destroying ⟨h.toBase.queue_user, h.stack, h.registered, h.callbacks,
          h.connections, h.destroyed, ?_⟩
        rw [count_queue_user]
        exact h.jobs
      · cases hf
      · exact (h.disconnect_sound hs).mono (fun _ => Life.running) fun _ he => he

/-! ## Runs -/

/-- The runs in which the connection and the server share their loop. -/
def singleLoop : System (World T) (Action T) Assertion where
  init := fun w => Start w ∧ w.sameLoop = true
  step := step

omit [DecidableEq T] in
/-- A run begins inside the handler of the acceptor, with `connectEstablished` to be called. -/
theorem start_life (h : Start w) (hl : w.sameLoop = true) : Life w := by
  rcases h.control with ⟨-, hstack, hpending, active, acceptor, todo, hphase, -⟩ | ⟨hl', -⟩
  · have hjobs : w.jobs = [] := by
      simp only [jobs, hphase, hpending]
    refine .connecting ⟨⟨hl, h.poller, ?_, ?_⟩, hstack, h.state, h.fresh, h.history.2.1, h.server.1,
      h.history.2.2.2, ?_⟩
    · rw [h.channel]
      rintro ⟨⟩
    · rw [hjobs]
      rintro j ⟨⟩
    · rw [hjobs]
      rfl
  · rw [hl] at hl'
    cases hl'

/-- The connection has been torn down: it watches nothing, the poller does not know it any more,
and the user has been told twice, that it is up and that it is down. -/
structure TornDown (w : World T) : Prop where
  state : w.conn.state = .kDisconnected
  noneEvent : w.conn.channel.isNoneEvent = true
  unknown : w.poller.hasChannel w.self w.heap = false
  callbacks : w.callbacks = [true, false]

omit [DecidableEq T] in
/-- Of the stages only the last has `connectDestroyed` behind it. -/
theorem Life.tornDown (h : Life w) (hd : w.destroyed = true) : TornDown w := by
  cases h with
  | connecting h =>
      have hfalse := h.destroyed
      rw [hd] at hfalse
      cases hfalse
  | destroying h =>
      have hfalse := h.destroyed
      rw [hd] at hfalse
      cases hfalse
  | running h =>
      have hdue : w.progress.destroyed = true := hd
      cases h.stage with
      | up hp | closing hp | leaving hp =>
          rw [hp.destroyed] at hdue
          cases hdue
      | gone hp hr =>
          refine ⟨hp.state, hp.noneEvent, ?_, hp.callbacks⟩
          apply Bool.eq_false_iff.mpr
          intro hh
          exact hr (Poller.hasChannel_iff.mp hh)

/-- By induction on the run; a step that fails does so in `Life` too, so that it fails for
something else than the tear-down. -/
theorem reachable_life {t : World T} (h : singleLoop.Reachable InTime t) :
    Life t ∧ ∀ a e, InTime t a → singleLoop.Fails t a e → e.tearDown = false := by
  apply System.Reachable.safe _ _ h
  · rintro s ⟨hs, hl⟩
    exact start_life hs hl
  · intro s a r hlife hin hr
    exact hlife.step hin (moves_of_step hr)

/-- In front of `channel_->remove()` on a connection that still watches. -/
theorem fails_noneEvent {u : World T} {stack : List Frame} (hs : u.stack = .remove :: stack)
    (hreading : u.conn.channel.isReading = true) : singleLoop.Fails u .remove .noneEvent := by
  have hnone : ¬ u.conn.channel.isNoneEvent = true := by
    rw [Channel.isNoneEvent_eq_false_of_isReading hreading]
    exact Bool.false_ne_true
  show step u .remove = _
  simp only [step, hs]
  rw [channelRemove, check_error hnone]
  rfl

/-- Code of the user runs only in a stage. -/
theorem Life.running_of_destroyServer {t u : World T} (h : Life t) (hconn : t.connections = true)
    (hn : singleLoop.Next t .destroyServer u) : t.Running := by
  cases h with
  | running h => exact h
  | connecting h =>
      cases next_moves hn with
      | destroyServer hu =>
          unfold userCode at hu
          rw [h.stack] at hu
          cases hu
  | destroying h =>
      have hc := h.connections
      rw [hconn] at hc
      cases hc

/-- `~TcpServer` on a connection that is half closed leaves out what `handleClose` has not done
either. -/
theorem fails_of_disconnecting {t u : World T} (h : t.Running) (hconn : t.connections = true)
    (hstate : t.conn.state = .kDisconnecting) (hn : singleLoop.Next t .destroyServer u) :
    singleLoop.Fails u .remove .noneEvent := by
  obtain ⟨hup, -⟩ := h.up_of_open (Or.inr hstate)
  have hu : u = { t with
      stack := .remove :: t.stack, serverAlive := false, connections := false } := by
    cases next_moves hn with
    | destroyServer =>
        simp only [destroyServer, hconn, h.sameLoop, if_true, connectDestroyed, hstate]
        rfl
  rw [hu]
  exact fails_noneEvent rfl hup.reading

end Zing.Net.Connection
