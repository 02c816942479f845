import Zing.Net.ConnectionTearDown

set_option autoImplicit false

/-! # Tear-down and the rounds of events

While a loop handles a round of events, `EventLoop::removeChannel` lets a channel be removed
only in its own handler or if it is not active. A functor is called between two rounds, so of
the two ways into `connectDestroyed` only the call in `~TcpServer` can violate this. A
connection that is destroyed in a permitted place stays removable until `channel_->remove()`,
because the round goes on only behind the handler.
-/

namespace Zing.Net.Connection

open Zing.Lib
open TcpConnection (Functor Effect StateE)

variable {T : Type} {w w' v : World T}

namespace World

/-- A `channel_->remove()` that is due is permitted. -/
def Removable (w : World T) : Prop :=
  Frame.remove ∈ w.stack ∨ Frame.disconnect ∈ w.stack → w.mayRemove = true

/-- From `w` to `w'` the round stays where it is, and no removal becomes due. -/
structure Aside (w w' : World T) : Prop where
  phase : w'.phase = w.phase
  self : w'.self = w.self
  frames : ∀ f ∈ w'.stack, f = .remove ∨ f = .disconnect → f ∈ w.stack

theorem Aside.mayRemove (h : Aside w w') : w'.mayRemove = w.mayRemove := by
  simp only [World.mayRemove, h.phase, h.self]

/-- A removal that was permitted stays permitted. -/
theorem Aside.removable (h : Aside w w') (hw : w.Removable) : w'.Removable := by
  intro hdue
  rw [h.mayRemove]
  apply hw
  rcases hdue with hmem | hmem
  · exact Or.inl (h.frames _ hmem (Or.inl rfl))
  · exact Or.inr (h.frames _ hmem (Or.inr rfl))

/-- One part of a step after the other. -/
theorem Aside.trans (h : Aside w v) (h' : Aside v w') : Aside w w' where
  phase := h'.phase.trans h.phase
  self := h'.self.trans h.self
  frames := fun f hf hd => h.frames f (h'.frames f hf hd) hd

/-- The frames stay, or some are left. -/
theorem aside_of_subset (hphase : w'.phase = w.phase) (hself : w'.self = w.self)
    (hstack : w'.stack ⊆ w.stack) : Aside w w' :=
  ⟨hphase, hself, fun _ hf _ => hstack hf⟩

theorem aside_same (hphase : w'.phase = w.phase) (hself : w'.self = w.self)
    (hstack : w'.stack = w.stack) : Aside w w' :=
  aside_of_subset hphase hself (by rw [hstack]; exact List.Subset.refl _)

/-- A call of something else makes no removal due. -/
theorem aside_push {f : Frame} (hf : f ≠ .remove ∧ f ≠ .disconnect) (hphase : w'.phase = w.phase)
    (hself : w'.self = w.self) (hstack : w'.stack = f :: w.stack) : Aside w w' := by
  refine ⟨hphase, hself, ?_⟩
  intro g hg hd
  rw [hstack] at hg
  rcases List.mem_cons.mp hg with rfl | hg
  · rcases hd with hd | hd
    · exact absurd hd hf.1
    · exact absurd hd hf.2
  · exact hg

/-- A function stays aside, or fails. -/
def StaysAside (w : World T) (r : Except Assertion (World T)) : Prop :=
  Ends (Aside w) (fun _ => True) r

/-- The functions of the connection do not call each other through the loop. -/
theorem perform_aside (w : World T)
    (r : Except TcpConnection.Assertion (TcpConnection × List Effect)) :
    w.StaysAside (w.perform r) := by
  apply (w.perform_ends r).mono _ fun _ _ => trivial
  rintro _ ⟨conn, es, c, p, o, -, rfl⟩
  exact aside_same rfl rfl rfl

theorem StaysAside.trans {r : Except Assertion (World T)} (hv : v.StaysAside r) (h : Aside w v) :
    w.StaysAside r :=
  Ends.mono hv (fun _ hr => h.trans hr) fun _ he => he

theorem connectEstablished_aside (w : World T) : w.StaysAside w.connectEstablished := by
  apply (w.perform_aside _).bind
  intro v hv
  exact hv.trans (aside_push (by decide) rfl rfl rfl)

theorem handleClose_aside (w : World T) : w.StaysAside w.handleClose := by
  apply (w.perform_aside _).bind
  intro v hv
  have hpush : Aside v { v with stack := .closeCallback :: v.stack } :=
    aside_push (by decide) rfl rfl rfl
  exact (hv.trans hpush).trans (aside_push (by decide) rfl rfl rfl)

theorem call_aside (w : World T) (c : Call) (r : WriteResult) : w.StaysAside (w.call c r) := by
  unfold World.call
  split
  · cases c with
    | shutdown => exact (perform_aside _ _).trans (aside_same rfl rfl rfl)
    | forceClose => exact aside_same rfl rfl rfl
    | forceCloseWithDelay => exact aside_same rfl rfl rfl
    | send message => exact perform_aside w _
  · exact aside_same rfl rfl rfl

theorem handle_aside (w : World T) (e : Channel.Handler) (n : ReadResult) (r : WriteResult) :
    w.StaysAside (w.handle e n r) := by
  have hrefl : Aside w w := aside_same rfl rfl rfl
  cases e with
  | close => exact handleClose_aside w
  | error => exact hrefl
  | read =>
      cases n with
      | data => exact aside_push (by decide) rfl rfl rfl
      | eof => exact handleClose_aside w
      | error => exact hrefl
  | write => exact perform_aside w _

theorem removeConnectionInLoop_aside (w : World T) : w.StaysAside w.removeConnectionInLoop := by
  apply Ends.check_any trivial
  apply Ends.check_any trivial
  exact aside_same rfl rfl rfl

theorem closeCallback_aside (w : World T) : w.StaysAside w.closeCallback := by
  unfold closeCallback
  split
  · exact removeConnectionInLoop_aside w
  · apply Ends.check_any trivial
    exact aside_same rfl rfl rfl

theorem channelRemove_aside (w : World T) : w.StaysAside w.channelRemove := by
  apply Ends.check_any trivial
  apply Ends.check_any trivial
  apply (ends_nested _ fun _ => trivial).bind
  rintro r -
  exact aside_same rfl rfl rfl

theorem dtor_aside (w : World T) : w.StaysAside w.dtor := by
  apply (ends_nested _ fun _ => trivial).bind
  rintro _ -
  apply Ends.check_any trivial
  apply Ends.check_any trivial
  apply Ends.check_any trivial
  exact aside_same rfl rfl rfl

/-- `connectDestroyed` does not move the round. -/
theorem connectDestroyed_phase (w : World T) :
    w.connectDestroyed.phase = w.phase ∧ w.connectDestroyed.self = w.self := by
  unfold connectDestroyed
  split
  · exact ⟨rfl, rfl⟩
  · exact ⟨rfl, rfl⟩

/-- A functor does not touch the round. -/
theorem runJob_phase (w : World T) (j : Job) (r : WriteResult) :
    Ends (fun w' => w'.phase = w.phase) (fun _ => True) (w.runJob j r) := by
  have haside : ∀ {r}, w.StaysAside r → Ends (fun w' => w'.phase = w.phase) (fun _ => True) r :=
    fun hr => hr.mono (fun _ h => h.phase) fun _ he => he
  cases j with
  | user => exact rfl
  | connectEstablished => exact haside (connectEstablished_aside w)
  | conn f =>
      cases f with
      | forceCloseInLoop =>
          show Ends _ _ w.forceCloseInLoop
          unfold forceCloseInLoop
          split
          · exact haside (handleClose_aside w)
          · exact rfl
      | forceCloseTimer => exact rfl
      | connectDestroyed => exact (connectDestroyed_phase w).1
      | writeCompleteCallback => exact rfl
      | highWaterMarkCallback n => exact rfl
      | sendInLoop message | shutdownInLoop | startReadInLoop | stopReadInLoop =>
          apply Ends.check_any trivial
          exact haside (perform_aside w _)

/-! ## Runs -/

/-- Between two rounds no channel is active. -/
theorem removable_of_calling {rest : List Job} (hp : w.phase = .calling rest) : w.Removable := by
  intro _
  simp only [mayRemove, hp]

end World

open World

/-- `~TcpServer` runs where the channel may be removed. -/
def InRound (w : World T) (a : Action T) : Prop :=
  a = .destroyServer → w.connections = true → w.mayRemove = true

/-- The call in `~TcpServer` is the one that needs the condition. -/
theorem destroyServer_removable (h : w.Removable)
    (hin : w.connections = true → w.sameLoop = true → w.mayRemove = true) :
    w.destroyServer.Removable := by
  have hround : w.destroyServer.phase = w.phase ∧ w.destroyServer.self = w.self := by
    unfold destroyServer
    simp only
    split
    · split
      · exact connectDestroyed_phase _
      · exact ⟨rfl, rfl⟩
    · exact ⟨rfl, rfl⟩
  have hmay : w.destroyServer.mayRemove = w.mayRemove := by
    simp only [mayRemove, hround.1, hround.2]
  by_cases hc : w.connections = true ∧ w.sameLoop = true
  · intro _
    rw [hmay]
    exact hin hc.1 hc.2
  · have hstack : w.destroyServer.stack = w.stack := by
      unfold destroyServer
      simp only
      split
      · rename_i hconn
        rw [if_neg fun hl => hc ⟨hconn, hl⟩]
        rfl
      · rfl
    exact (aside_same hround.1 hround.2 hstack).removable h

/-- Between two handlers or functors no `channel_->remove()` is due. -/
theorem removable_of_between (hb : w.between = true) {f : Frame}
    (hf : f ≠ .remove ∧ f ≠ .disconnect) (hstack : w'.stack = w.stack ∨ w'.stack = f :: w.stack) :
    w'.Removable := by
  have hnil : w.stack = [] := List.isEmpty_iff.mp hb
  have hmem : ∀ g ∈ w'.stack, g = f := by
    intro g hg
    rcases hstack with hs | hs
    · rw [hs, hnil] at hg
      cases hg
    · rw [hs, hnil] at hg
      exact List.mem_singleton.mp hg
  rintro (hd | hd)
  · exact absurd (hmem _ hd).symm hf.1
  · exact absurd (hmem _ hd).symm hf.2

variable [DecidableEq T] {a : Action T} {r : Except Assertion (World T)}

/-- The step lemma: the round goes on only behind a handler, when nothing is due. -/
theorem step_removable (h : w.Removable) (hin : InRound w a) (hm : Moves w a r) :
    Ends Removable (fun _ => True) r := by
  have hend : ∀ {v : World T} {r : Except Assertion (World T)}, v.StaysAside r → Aside w v →
      Ends Removable (fun _ => True) r :=
    fun hr ha => Ends.mono hr (fun _ hv => (ha.trans hv).removable h) fun _ he => he
  have hrefl : Aside w w := aside_same rfl rfl rfl
  have hpop : ∀ {f : Frame} {stack : List Frame}, w.stack = f :: stack →
      Aside w { w with stack := stack } := by
    intro f stack hs
    refine aside_of_subset rfl rfl ?_
    rw [hs]
    exact List.subset_cons_self f stack
  cases hm with
  | call => exact hend (call_aside w _ _) hrefl
  | startRead => exact hend (perform_aside w _) hrefl
  | stopRead => exact hend (perform_aside w _) hrefl
  | timerDead => exact (aside_same rfl rfl rfl).removable h
  | timer => exact hend (call_aside _ _ _) (aside_same rfl rfl rfl)
  | destroyServer => exact destroyServer_removable h fun hc _ => hin rfl hc
  | updateOther =>
      apply (ends_nested _ fun _ => trivial).bind
      rintro r -
      exact (aside_same rfl rfl rfl).removable h
  | removeOther => exact (aside_same rfl rfl rfl).removable h
  | userReturns hs => exact (hpop hs).removable h
  | callbackReturns hs => exact (hpop hs).removable h
  | establish hs => exact hend (connectEstablished_aside _) (hpop hs)
  | closeCallback hs => exact hend (closeCallback_aside _) (hpop hs)
  | disconnect hs =>
      -- the removal was due already, in the middle of `connectDestroyed`
      have hmay : w.mayRemove = true := by
        apply h
        rw [hs]
        exact Or.inr (List.mem_cons_self ..)
      apply (perform_aside _ _).bind
      intro v hv _
      exact ((hpop hs).trans hv).mayRemove.trans hmay
  | remove hs => exact hend (channelRemove_aside _) (hpop hs)
  | @handle e rest stack _ _ hs =>
      have hstack : Aside w { w with stack := .handlers rest :: stack } :=
        (hpop hs).trans (aside_push (by constructor <;> rintro ⟨⟩) rfl rfl rfl)
      exact hend (handle_aside _ _ _ _) hstack
  | handlersDone hs =>
      exact ((hpop hs).trans (aside_same rfl rfl rfl)).removable h
  | poll _ hb => exact removable_of_between hb (f := .user) (by decide) (Or.inl rfl)
  | nextChannel _ hb =>
      unfold handleEvent
      split
      · apply Ends.check_any trivial
        exact removable_of_between hb (by constructor <;> rintro ⟨⟩) (Or.inr rfl)
      · exact removable_of_between hb (f := .user) (by decide) (Or.inr rfl)
  | handled _ hb => exact removable_of_between hb (f := .user) (by decide) (Or.inl rfl)
  | nextJob =>
      apply (runJob_phase _ _ _).mono _ fun _ he => he
      intro v hv
      exact removable_of_calling hv
  | jobsDone _ hb => exact removable_of_between hb (f := .user) (by decide) (Or.inl rfl)
  | queueUser => exact (aside_same rfl rfl rfl).removable h
  | test => exact (aside_same rfl rfl rfl).removable h
  | set => exact (aside_same rfl rfl rfl).removable h
  | post => exact (aside_same rfl rfl rfl).removable h
  | baseRemove => exact hend (removeConnectionInLoop_aside _) (aside_same rfl rfl rfl)
  | baseDestroyServer hl =>
      apply destroyServer_removable h
      intro _ hl'
      rw [hl] at hl'
      cases hl'
  | destruct => exact hend (dtor_aside w) hrefl

omit [DecidableEq T] in
theorem start_removable (h : Start w) : w.Removable := by
  rintro hdue
  rcases h.control with ⟨-, hs, -⟩ | ⟨-, hs, -⟩
  · rw [hs] at hdue
    simp at hdue
  · rw [hs] at hdue
    simp at hdue

theorem reachable_removable {P : World T → Action T → Prop} (hP : ∀ w a, P w a → InRound w a)
    {t : World T} (h : singleLoop.Reachable P t) : t.Removable := by
  apply System.Reachable.invariant _ _ h
  · rintro s ⟨hs, -⟩
    exact start_removable hs
  intro s a u hs hp hn
  exact step_removable hs (hP s a hp) (next_moves hn)

omit [DecidableEq T] in
/-- The assertions on the way of `channel_->remove()`. -/
theorem channelRemove_fails (w : World T) {e : Assertion} (h : w.channelRemove = .error e) :
    e.tearDown = true ∨ w.mayRemove = false := by
  have hends : Ends (fun _ => True) (fun e => e.tearDown = true ∨ w.mayRemove = false)
      w.channelRemove := by
    refine Ends.check (fun _ => Or.inl rfl) ?_
    intro _
    refine Ends.check (fun hm => Or.inr (Bool.eq_false_iff.mpr hm)) ?_
    intro _
    refine Ends.bind (ends_nested _ fun _ => Or.inl rfl) ?_
    rintro r -
    trivial
  rw [h] at hends
  exact hends

/-- Where the channel may be removed, `channel_->remove()` fails no assertion but those of the
tear-down. -/
theorem remove_fails {t : World T} {e : Assertion} (h : t.Removable)
    (hf : singleLoop.Fails t .remove e) : e.tearDown = true := by
  have hs : step t .remove = some (.error e) := hf
  generalize hr : (Except.error e : Except Assertion (World T)) = r at hs
  cases moves_of_step hs with
  | remove hstack =>
      have hmay : t.mayRemove = true := by
        apply h
        rw [hstack]
        exact Or.inl (List.mem_cons_self ..)
      rcases channelRemove_fails _ hr.symm with he | hfalse
      · exact he
      · have hfalse' : t.mayRemove = false := hfalse
        rw [hmay] at hfalse'
        cases hfalse'

/-- Without the condition, `EventLoop::removeChannel` fails its assertion. -/
theorem fails_activeChannel {u : World T} {stack : List Frame} (hs : u.stack = .remove :: stack)
    (hnone : u.conn.channel.isNoneEvent = true) (hmay : u.mayRemove = false) :
    singleLoop.Fails u .remove .activeChannel := by
  have hmay' : ¬ (clearAdded { u with stack := stack }).mayRemove = true := by
    show ¬ u.mayRemove = true
    rw [hmay]
    exact Bool.false_ne_true
  show step u .remove = _
  simp only [step, hs, channelRemove]
  rw [check_bind hnone, check_error hmay']
  rfl

/-- Where the channel may not be removed, the `channel_->remove()` that `~TcpServer` leads to
fails. -/
theorem fails_of_active {t u : World T} (h : t.Running) (hconn : t.connections = true)
    (hstate : t.conn.state ≠ .kDisconnecting) (hmay : t.mayRemove = false)
    (hn : singleLoop.Next t .destroyServer u) :
    ∃ as v, singleLoop.Run System.always u as v ∧ singleLoop.Fails v .remove .activeChannel := by
  have hu : u = t.destroyServer := by
    cases next_moves hn
    rfl
  rcases h.open_or_down with hopen | hdown
  · obtain ⟨hup, hreg⟩ := h.up_of_open hopen
    have hconnected : t.conn.state = .kConnected := hopen.resolve_right hstate
    have heq : u = { t with
        stack := .disconnect :: t.stack, serverAlive := false, connections := false } := by
      rw [hu]
      simp only [destroyServer, hconn, h.sameLoop, if_true, connectDestroyed, hconnected]
    have hbase : Base { t with serverAlive := false, connections := false } :=
      ⟨h.sameLoop, h.wf, h.handling, h.quiet⟩
    obtain ⟨v, hok, -, ⟨k, p, o, rfl⟩, -⟩ := perform_closed hbase hreg
    let v : World T := { t with serverAlive := false, connections := false }.performed
      (indexed t.conn.closed k) p o []
    let v' : World T := { v with stack := .remove :: t.stack }.connectionCallback
    have hdisconnect : singleLoop.Next u .disconnect v' := by
      subst heq
      show some (disconnect { t with serverAlive := false, connections := false }) = _
      have hperform : ({ t with serverAlive := false, connections := false } : World T).perform
          (.ok t.conn.connectDestroyedConnected) = .ok v := hok
      unfold disconnect
      rw [hperform]
      rfl
    have hreturns : singleLoop.Next v' .returns { v' with stack := .remove :: t.stack } := rfl
    refine ⟨[.disconnect, .returns], { v' with stack := .remove :: t.stack }, ?_, ?_⟩
    · exact System.Run.cons trivial hdisconnect (System.Run.single trivial hreturns)
    · exact fails_activeChannel rfl (Channel.isNoneEvent_disableAll t.conn.channel) hmay
  · have heq : u = { t with
        stack := .remove :: t.stack, serverAlive := false, connections := false } := by
      have hd : t.conn.state = .kDisconnected := hdown.state
      rw [hu]
      simp only [destroyServer, hconn, h.sameLoop, if_true, connectDestroyed, hd]
      rfl
    subst heq
    exact ⟨[], _, System.Run.nil, fails_activeChannel rfl hdown.noneEvent hmay⟩

/-! ## Tear-down -/

/-- In a run on one loop in which `~TcpServer` never finds the connection half closed, a
connection whose `connectDestroyed` has run is torn down, and no assertion of the tear-down
fails; `EventLoop::removeChannel` does not fail either, if `~TcpServer` only runs where the
channel may be removed. Where `~TcpServer` does find the connection half closed,
`Channel::remove` fails, and where the channel may not be removed, `EventLoop::removeChannel`
does. -/
theorem teardown_complete (t : World T) (h : singleLoop.Reachable InTime t) :
    (t.destroyed = true → TornDown t) ∧
    (∀ a e, InTime t a → singleLoop.Fails t a e → e.tearDown = false) ∧
    (singleLoop.Reachable (fun w a => InTime w a ∧ InRound w a) t →
      ∀ e, ¬ singleLoop.Fails t .remove e) ∧
    (t.connections = true → ∀ u, singleLoop.Next t .destroyServer u →
      (t.conn.state = .kDisconnecting → singleLoop.Fails u .remove .noneEvent) ∧
      (t.conn.state ≠ .kDisconnecting → t.mayRemove = false →
        ∃ as v, singleLoop.Run System.always u as v ∧
          singleLoop.Fails v .remove .activeChannel)) := by
  obtain ⟨hlife, hfails⟩ := reachable_life h
  refine ⟨hlife.tornDown, hfails, ?_, ?_⟩
  · intro hround e hf
    have hremovable := reachable_removable (fun _ _ hp => hp.2) hround
    have htrue := remove_fails hremovable hf
    have hin : InTime t .remove := ⟨rfl, by rintro ⟨⟩⟩
    rw [hfails .remove e hin hf] at htrue
    cases htrue
  · intro hconn u hn
    have hrunning := hlife.running_of_destroyServer hconn hn
    refine ⟨fun hstate => fails_of_disconnecting hrunning hconn hstate hn, ?_⟩
    intro hstate hmay
    exact fails_of_active hrunning hconn hstate hmay hn

/-- The peer closes the connection, and its functors run. -/
def peerCloses : List (Action Unit) :=
  [.establish, .returns, .returns, .handled, .jobsDone, .poll [2] { pollHup := true },
    .nextChannel, .handle .error (.accepted 0), .returns, .closeCallback,
    .handle .error (.accepted 0), .handled, .nextJob (.accepted 0), .remove]

theorem teardown_complete_sample : ∃ t : World Unit, singleLoop.Reachable InTime t ∧
    t.destroyed = true ∧ TornDown t := by
  have hstart : singleLoop.init (accepted (T := Unit) false) := ⟨accepted_start false, rfl⟩
  have hrun := System.run_of_exec
    (rfl : singleLoop.exec (accepted false) peerCloses = some (.ok _))
  have hin : ∀ a ∈ peerCloses, ∀ u : World Unit, InTime u a := by
    intro a ha u
    have hne : a ≠ .destroyServer := by
      rintro rfl
      simp [peerCloses] at ha
    have hon : ∀ a ∈ peerCloses, a.onLoop = true := by decide
    exact ⟨hon a ha, fun heq => absurd heq hne⟩
  have hreach := System.Reachable.run (System.Reachable.of_init hstart) (hrun.of_actions hin)
  exact ⟨_, hreach, rfl, (teardown_complete _ hreach).1 rfl⟩

/-- `shutdown()`, and then `~TcpServer`. -/
def halfClosed : List (Action Unit) :=
  [.establish, .returns, .call .shutdown (.accepted 0), .destroyServer]

/-- Code of the user on the loop thread shuts the connection down and destroys the server: the
channel is removed with its events enabled. -/
theorem teardown_incomplete : ¬ ∀ (t : World Unit) (a : Action Unit) (e : Assertion),
    singleLoop.Reachable (fun _ a => a.onLoop = true) t → a.onLoop = true →
    singleLoop.Fails t a e → e.tearDown = false := by
  intro hall
  have hstart : singleLoop.init (accepted (T := Unit) false) := ⟨accepted_start false, rfl⟩
  have hrun := System.run_of_exec
    (rfl : singleLoop.exec (accepted false) halfClosed = some (.ok _))
  have hon : ∀ a ∈ halfClosed, ∀ u : World Unit, a.onLoop = true := by
    intro a ha u
    have hall : ∀ a ∈ halfClosed, a.onLoop = true := by decide
    exact hall a ha
  have hreach := System.Reachable.run (System.Reachable.of_init hstart) (hrun.of_actions hon)
  have hfalse := hall _ .remove .noneEvent hreach rfl rfl
  cases hfalse

end Zing.Net.Connection
