import Zing.Net.ServerRemoval

set_option autoImplicit false

/-! # The destruction of a server

Each step that meets the condition `Keeps` keeps the invariant, and the invariant has what
`World.Orderly` promises. Behind a step that does not meet it, a functor or a close callback
stays due that cannot be called any more.
-/

namespace Zing.Net.ServerLoops

open Zing.Lib
open World

variable {L : Type} [DecidableEq L] {w v : World L} {l : L} {n : Nat} {f : Functor}
  {rest : List Functor}

/-! ## The steps -/

/-- The steps, each with the condition under which it is possible and with what it ends in. -/
inductive Moves (w : World L) : Action L → Except Assertion (World L) → Prop
  | accept {l : L} {sockfd : Nat} (hb : w.between w.base = true) (hl : w.life = .alive) :
      Moves w (.accept l sockfd)
        ((w.newConnection l sockfd).runInLoop w.base l (.connectEstablished w.accepted))
  | shutdown {n : Nat} (hn : n < w.accepted) (ht : (w.conn n).shutdownTest = true) :
      Moves w (.shutdown n) (.ok (w.setConn n ((w.conn n).setState .kDisconnecting)))
  | handleClose {n : Nat} (hn : n < w.accepted) (hb : w.between (w.loop n) = true)
      (hc : (w.conn n).state ≠ .kConnecting) :
      Moves w (.handleClose n)
        ({ w with closing := Function.update w.closing (w.loop n) (some n) }.handleClose n)
  | closeCallback {l : L} {n : Nat} (hc : w.closing l = some n)
      (hd : ¬ (l = w.base ∧ w.inDtor = true)) :
      Moves w (.closeCallback l)
        ({ w with closing := Function.update w.closing l none }.closeCallback l n)
  | run {l : L} {f : Functor} {rest : List Functor} (hq : w.mail.queue l = f :: rest)
      (hb : w.between l = true) :
      Moves w (.run l) ({ w with mail := w.mail.next l f rest }.runFunctor f)
  | destroyServer (hl : w.life = .alive) :
      Moves w .destroyServer (.ok { w with life := .destructing w.items })
  | destroyItem {todo : List Nat} {n : Nat} (hl : w.life = .destructing todo) (hn : n ∈ todo) :
      Moves w (.destroyItem n)
        ({ w with life := .destructing (todo.erase n) }.runInLoop w.base (w.loop n)
          (.connectDestroyed n))
  | serverDestroyed (hl : w.life = .destructing []) :
      Moves w .serverDestroyed (.ok { w with life := .destroyed })

variable {a : Action L} {r : Except Assertion (World L)} {as : List (Action L)}

/-- Every step is one of these. -/
theorem moves_of_step (hs : step w a = some r) : Moves w a r := by
  cases a with
  | accept l sockfd =>
      obtain ⟨hc, rfl⟩ := of_guard hs
      exact Moves.accept hc.1 hc.2
  | shutdown n =>
      obtain ⟨hc, rfl⟩ := of_guard hs
      exact Moves.shutdown hc.1 hc.2
  | handleClose n =>
      obtain ⟨hc, rfl⟩ := of_guard hs
      exact Moves.handleClose hc.1 hc.2.1 hc.2.2
  | closeCallback l =>
      simp only [step] at hs
      split at hs
      · rename_i n hc
        split at hs
        · cases hs
        · rename_i hd
          cases hs
          exact Moves.closeCallback hc hd
      · cases hs
  | run l =>
      simp only [step] at hs
      split at hs
      · rename_i f rest hq
        obtain ⟨hb, rfl⟩ := of_guard hs
        exact Moves.run hq hb
      · cases hs
  | destroyServer =>
      simp only [step] at hs
      split at hs
      · rename_i hl
        cases hs
        exact Moves.destroyServer hl
      · cases hs
  | destroyItem n =>
      simp only [step] at hs
      split at hs
      · rename_i todo hl
        obtain ⟨hn, rfl⟩ := of_guard hs
        exact Moves.destroyItem hl hn
      · cases hs
  | serverDestroyed =>
      simp only [step] at hs
      split at hs
      · rename_i hl
        cases hs
        exact Moves.serverDestroyed hl
      · cases hs

/-- A loop that is between two of its functions is in no close. -/
theorem free_of_between (h : w.between l = true) : w.closing l = none := by
  rw [between, Bool.and_eq_true] at h
  exact Option.isNone_iff_eq_none.mp h.1

omit [DecidableEq L] in
/-- A step of which the invariant does not need the condition. -/
theorem ends_any (h : Ends Inv (fun e => e ≠ .deadServer) r) :
    Ends (fun v => Keeps w a → Inv v) (fun e => e ≠ .deadServer) r :=
  h.mono (fun _ hv _ => hv) fun _ he => he

theorem World.Inv.runInLoop_established (h : Inv w) (hl : w.life = .alive) (l : L)
    (sockfd : Nat) : Ends Inv (fun e => e ≠ .deadServer)
      ((w.newConnection l sockfd).runInLoop w.base l (.connectEstablished w.accepted)) := by
  unfold runInLoop
  split
  · rename_i hbase
    have haccept := h.accept hl sockfd (.called hbase.symm)
      fun _ => List.mem_append_right _ (List.mem_singleton_self _)
    exact haccept.connectEstablished _
  · rename_i hbase
    exact h.accept hl sockfd .posted fun hl => absurd hl.symm hbase

/-- A step under the condition keeps the invariant, and no step calls a dead server while it
holds. -/
theorem step_inv (h : Inv w) (hm : Moves w a r) :
    Ends (fun v => Keeps w a → Inv v) (fun e => e ≠ .deadServer) r := by
  cases hm with
  | accept hb hl => exact ends_any (h.runInLoop_established hl _ _)
  -- `shutdown` tests for `kConnected`, so no disconnected connection comes back
  | @shutdown n hn ht =>
      refine fun _ => h.setConn fun hd => ?_
      simp [TcpConnection.shutdownTest, hd] at ht
  | @handleClose n hn hb hc =>
      -- the condition lets no connection be closed behind `~TcpServer`
      by_cases hlife : w.life = .alive
      · exact ends_any (h.handleClose hlife hn (free_of_between hb))
      · exact (handleClose_fails _ n).mono (fun _ _ hk => absurd (hk.handleClose n rfl) hlife)
          fun _ he => he
  | closeCallback hc => exact ends_any (h.closeCallback hc)
  | run hq => exact ends_any (h.run hq)
  | destroyServer hl => exact fun hk => h.destroyServer hl (hk.destroyServer rfl)
  | destroyItem hl hn => exact ends_any (h.destroyItem hl hn)
  | serverDestroyed hl => exact fun _ => h.serverDestroyed (by rw [hl]; rintro ⟨⟩)

omit [DecidableEq L] in
/-- No connection has been accepted yet. -/
theorem Start.not_accepted (h : Start w) (n : Nat) : ¬ n < w.accepted := by
  rw [h.accepted]
  exact Nat.not_lt_zero n

omit [DecidableEq L] in
/-- A server that has accepted nothing has nothing to tear down. -/
theorem start_inv (h : Start w) : Inv w where
  queued := by
    intro l f hf
    rw [h.queue] at hf
    cases hf
  logged := by
    rintro n ⟨f, hf, -⟩
    rw [h.log] at hf
    cases hf
  closing := by
    intro l n hl
    rw [h.closing] at hl
    cases hl
  direct n hn := absurd hn (h.not_accepted n)
  history n hn := absurd hn (h.not_accepted n)
  attached _ := by
    refine ⟨?_, ?_, ?_, ?_⟩
    · intro n hn
      exact absurd hn (h.not_accepted n)
    · intro n hn
      exact absurd hn (h.not_accepted n)
    · intro n hn
      exact absurd hn (h.not_accepted n)
    · intro name c hc
      rw [h.connections, AList.lookup_empty] at hc
      cases hc
  todo := by
    intro todo htodo
    rw [h.life] at htodo
    cases htodo
  quiet hlife := absurd h.life hlife

/-- By induction on a run whose steps meet the condition. -/
theorem reachable_inv (h : runs.Reachable Keeps w) : Inv w := by
  apply h.invariant (fun _ h₀ => start_inv h₀)
  intro s a u hs hk hn
  exact step_inv hs (moves_of_step hn) hk

/-! ## What the invariant promises -/

omit [DecidableEq L] in
/-- Of one connection, the loop has called these two in this order, or the first, or none. -/
theorem World.Inv.log_prefix (h : Inv w) (n : Nat) : w.mail.log.filter (Functor.isOf n) <+:
    [Functor.connectEstablished n, Functor.connectDestroyed n] := by
  by_cases hn : n < w.accepted
  · have hprefix : w.mail.log.filter (Functor.isOf n) <+: w.history n := Mail.log_prefix
    -- the log is a prefix of what has been due: `connectEstablished`, then `connectDestroyed`
    rcases h.history n hn with hhist | hhist
    · rw [hhist] at hprefix
      exact hprefix.trans (List.prefix_append [_] [_])
    · rwa [hhist] at hprefix
  · -- nothing of a connection that has not been accepted has been called
    have hnone : w.mail.log.filter (Functor.isOf n) = [] := by
      apply List.filter_eq_nil_iff.mpr
      intro f hf hof
      exact hn (h.logged n ⟨f, hf, hof⟩)
    rw [hnone]
    exact List.nil_prefix

omit [DecidableEq L] in
/-- `connectEstablished` has been called or waits to be, once. -/
theorem World.Inv.established (h : Inv w) (hn : n < w.accepted) :
    w.mail.log.count (.connectEstablished n) +
      (w.mail.queue (w.loop n)).count (.connectEstablished n) = 1 := by
  have hcount : (w.history n).count (.connectEstablished n) = 1 := by
    rcases h.history n hn with hhist | hhist
    · rw [hhist, List.count_singleton_self]
    · rw [hhist, List.count_cons_self, List.count_singleton]
      rfl
  rw [← List.count_append, ← hcount]
  exact (List.count_filter (by simp)).symm

omit [DecidableEq L] in
/-- It comes before `connectDestroyed`, -/
theorem World.Inv.order (h : Inv w) {pre post : List Functor}
    (hlog : w.mail.log = pre ++ .connectDestroyed n :: post) : .connectEstablished n ∈ pre := by
  have hprefix := h.log_prefix n
  rw [hlog, List.filter_append, List.filter_cons_of_pos (by simp)] at hprefix
  cases hpre : pre.filter (Functor.isOf n) with
  | nil =>
      -- `connectDestroyed` would be the first of the two
      rw [hpre, List.nil_append, List.cons_prefix_cons] at hprefix
      cases hprefix.1
  | cons f fs =>
      rw [hpre, List.cons_append, List.cons_prefix_cons] at hprefix
      have hmem : f ∈ pre.filter (Functor.isOf n) := by
        rw [hpre]
        exact List.mem_cons_self
      rw [← hprefix.1]
      exact List.mem_of_mem_filter hmem

omit [DecidableEq L] in
/-- which comes once. -/
theorem World.Inv.once (h : Inv w) (n : Nat) : w.mail.log.count (.connectDestroyed n) ≤ 1 := by
  calc w.mail.log.count (.connectDestroyed n)
      = (w.mail.log.filter (Functor.isOf n)).count (.connectDestroyed n) :=
        (List.count_filter (by simp)).symm
    _ ≤ [Functor.connectEstablished n, Functor.connectDestroyed n].count (.connectDestroyed n) :=
        (h.log_prefix n).sublist.count_le _
    _ = 1 := by
        rw [List.count_cons_of_ne (by rintro ⟨⟩), List.count_singleton_self]

theorem World.Inv.orderly (h : Inv w) : w.Orderly where
  established := fun _ hn => h.established hn
  order := fun _ _ _ hlog => h.order hlog
  once := h.once
  server := fun _ hf => step_inv h (moves_of_step hf) rfl

/-! ## Behind a step that does not meet the condition -/

/-- The server is being destroyed or has been, and something that is bound to it is due. -/
structure Stuck (w : World L) : Prop where
  life : w.life ≠ .alive
  bound : w.Bound

/-- No loop goes on in `handleClose`, and the base loop calls no functor. -/
structure Extends (w v : World L) : Prop where
  life : v.life = w.life
  base : v.base = w.base
  closing : v.closing = w.closing
  queue : ∀ f ∈ w.mail.queue w.base, f ∈ v.mail.queue w.base

omit [DecidableEq L] in
/-- What is due stays due while the queue only grows. -/
theorem Stuck.imp (h : Stuck w) (he : Extends w v) : Stuck v where
  life := by
    rw [he.life]
    exact h.life
  bound := by
    rcases h.bound with ⟨n, hn⟩ | ⟨l, n, hl⟩
    · refine Or.inl ⟨n, ?_⟩
      rw [he.base]
      exact he.queue _ hn
    · refine Or.inr ⟨l, n, ?_⟩
      rw [he.closing]
      exact hl

/-- A functor queues others, and takes nothing off. -/
theorem runFunctor_extends (w : World L) (f : Functor) :
    Ends (Extends w) (fun _ => True) (w.runFunctor f) := by
  cases f with
  | connectEstablished n =>
      apply (ends_nested _ fun _ => trivial).bind
      rintro r -
      exact ⟨rfl, rfl, rfl, fun _ hf => hf⟩
  | connectDestroyed n =>
      apply Ends.check_any trivial
      exact ⟨rfl, rfl, rfl, fun _ hf => hf⟩
  | removeConnectionInLoop n =>
      apply Ends.check_any trivial
      apply (ends_nested _ fun _ => trivial).bind
      rintro server -
      exact ⟨rfl, rfl, rfl, fun _ hf => Mail.mem_post_queue.mpr (Or.inl hf)⟩

/-- So does one that is handed to a loop. -/
theorem runInLoop_extends (w : World L) (here l : L) (f : Functor) :
    Ends (Extends w) (fun _ => True) (w.runInLoop here l f) := by
  unfold runInLoop
  split
  · refine (runFunctor_extends _ f).mono (fun v hv => ?_) fun _ h => h
    exact ⟨hv.life, hv.base, hv.closing, hv.queue⟩
  · exact ⟨rfl, rfl, rfl, fun _ hf => Mail.mem_post_queue.mpr (Or.inl hf)⟩

/-- A loop calls a functor: the one that is bound to the server cannot be called. -/
theorem Stuck.run (h : Stuck w) (hq : w.mail.queue l = f :: rest) (hb : w.between l = true) :
    Ends Stuck (fun _ => True) ({ w with mail := w.mail.next l f rest }.runFunctor f) := by
  have hstuck : ∀ v, Extends { w with mail := w.mail.next l f rest } v →
      (∀ n, .removeConnectionInLoop n ∈ w.mail.queue w.base →
        .removeConnectionInLoop n ∈ (w.mail.next l f rest).queue w.base) → Stuck v := by
    intro v hv hleft
    have hnext : Stuck { w with mail := w.mail.next l f rest } :=
      ⟨h.life, h.bound.imp_left fun ⟨n, hn⟩ => ⟨n, hleft n hn⟩⟩
    exact hnext.imp hv
  -- only the base loop takes functors from the queue that matters here
  by_cases hl : l = w.base
  · subst hl
    cases f with
    | removeConnectionInLoop n =>
        -- the base loop is not in `~TcpServer`, which is over
        have hdead : w.life = .destroyed := by
          rw [between, inDtor] at hb
          cases hlife : w.life with
          | alive => exact absurd hlife h.life
          | destructing todo =>
              rw [hlife] at hb
              simp at hb
          | destroyed => rfl
        apply Ends.check
        · intro _
          trivial
        · intro hlife
          exact absurd hdead hlife
    | _ =>
        refine (runFunctor_extends _ _).mono (fun v hv => hstuck v hv fun n hn => ?_) fun _ h => h
        rw [hq] at hn
        rw [Mail.next_queue_self]
        rcases List.mem_cons.mp hn with heq | hn
        · cases heq
        · exact hn
  · refine (runFunctor_extends _ f).mono (fun v hv => hstuck v hv fun n hn => ?_) fun _ h => h
    rw [Mail.next_queue_of_ne (Ne.symm hl)]
    exact hn

/-- On another loop `closeCallback_` posts the removal. -/
theorem Stuck.closeCallback (h : Stuck w) (hd : ¬ (l = w.base ∧ w.inDtor = true)) :
    Ends Stuck (fun _ => True)
      ({ w with closing := Function.update w.closing l none }.closeCallback l n) := by
  apply Ends.check
  · intro _
    trivial
  · intro hlife
    have hbase : l ≠ w.base := by
      rintro rfl
      apply hd
      refine ⟨rfl, ?_⟩
      rw [inDtor]
      cases hw : w.life with
      | alive => exact absurd hw h.life
      | destructing todo => rfl
      | destroyed => exact absurd hw hlife
    unfold runInLoop
    rw [if_neg hbase]
    exact ⟨h.life, Or.inl ⟨n, Mail.mem_post_queue.mpr (Or.inr ⟨rfl, rfl⟩)⟩⟩

/-- The callback of a `handleClose` that has begun is due. -/
theorem stuck_handleClose (hl : w.life ≠ .alive) : Ends Stuck (fun _ => True)
    ({ w with closing := Function.update w.closing (w.loop n) (some n) }.handleClose n) := by
  apply (ends_nested _ fun _ => trivial).bind
  rintro r -
  exact ⟨hl, Or.inr ⟨w.loop n, n, Function.update_self ..⟩⟩

/-- No step of any loop clears it: the base loop calls nothing while `~TcpServer` runs, and is
gone behind it. -/
theorem Stuck.step (h : Stuck w) (hm : Moves w a r) : Ends Stuck (fun _ => True) r := by
  cases hm with
  | accept _ hl => exact absurd hl h.life
  | shutdown => exact h.imp ⟨rfl, rfl, rfl, fun _ hf => hf⟩
  | handleClose => exact stuck_handleClose h.life
  | closeCallback _ hd => exact h.closeCallback hd
  | run hq hb => exact h.run hq hb
  | destroyServer hl => exact absurd hl h.life
  | @destroyItem todo n hl hn =>
      have hstuck : Stuck { w with life := .destructing (todo.erase n) } :=
        ⟨by rintro ⟨⟩, h.bound⟩
      exact (runInLoop_extends _ _ _ _).mono (fun _ hv => hstuck.imp hv) fun _ he => he
  | serverDestroyed => exact ⟨by rintro ⟨⟩, h.bound⟩

/-- A step that does not meet the condition. -/
theorem stuck_of_not_keeps (hm : Moves w a r) (hk : ¬ Keeps w a) :
    Ends Stuck (fun _ => True) r := by
  cases hm with
  | destroyServer hl =>
      refine ⟨by rintro ⟨⟩, ?_⟩
      by_contra hb
      exact hk ⟨fun _ => hb, by rintro n ⟨⟩⟩
  | handleClose =>
      apply stuck_handleClose
      intro hl
      exact hk ⟨by rintro ⟨⟩, fun _ _ => hl⟩
  | _ => exact absurd ⟨by rintro ⟨⟩, by rintro n ⟨⟩⟩ hk

/-! ## Runs -/

/-- In every run whose steps meet the condition the connections are torn down in order, and
nothing that is bound to the server is called behind `~TcpServer`. Behind a step that does not
meet it, something that is bound to the server stays due for good, since it cannot be called. -/
theorem torn_down (t : World L) (h : runs.Reachable Keeps t) : t.Orderly ∧
    ∀ a u, runs.Next t a u → ¬ Keeps t a → ∀ as v, runs.Run System.always u as v →
      v.life ≠ .alive ∧ v.Bound := by
  refine ⟨(reachable_inv h).orderly, ?_⟩
  intro a u hn hk as v hrun
  have hstuck : Stuck v := by
    apply hrun.invariant _ (stuck_of_not_keeps (moves_of_step hn) hk)
    intro s b s' hs _ hnext
    exact hs.step (moves_of_step hnext)
  exact ⟨hstuck.life, hstuck.bound⟩

/-- A server without connections; `false` is its base loop, and `true` another loop. -/
def listening : World Bool where
  server := TcpServer.listening.server
  life := .alive
  base := false
  accepted := 0
  entry := fun _ => ⟨[], false, TcpConnection.new 0⟩
  mail := ⟨[], fun _ => []⟩
  closing := fun _ => none

theorem listening_start : Start listening where
  connections := rfl
  life := rfl
  accepted := rfl
  log := rfl
  queue _ := rfl
  closing _ := rfl

/-- A connection on the other loop is established. -/
def establishes : List (Action Bool) := [.accept true 7, .run true]

/-- It goes on in `handleClose`, and is removed and destroyed. -/
def removes : List (Action Bool) := [.closeCallback true, .run false, .run true]

theorem keeps_other {as : List (Action Bool)} (h : as = establishes ∨ as = removes) :
    ∀ a ∈ as, ∀ u : World Bool, Keeps u a := by
  intro a ha u
  constructor
  · rintro rfl
    rcases h with rfl | rfl <;> simp [establishes, removes] at ha
  · rintro n rfl
    rcases h with rfl | rfl <;> simp [establishes, removes] at ha

theorem torn_down_sample : ∃ t : World Bool, runs.Reachable Keeps t ∧ t.life = .destroyed ∧
    t.mail.log = [.connectEstablished 0, .removeConnectionInLoop 0, .connectDestroyed 0] ∧
    t.Orderly := by
  have hestablished := System.Reachable.run (System.Reachable.of_init listening_start)
    ((System.run_of_exec (rfl : runs.exec listening establishes = some (.ok _))).of_actions
      (keeps_other (Or.inl rfl)))
  have hclosed := hestablished.run
    (System.Run.single (a := Action.handleClose 0) ⟨by rintro ⟨⟩, fun _ _ => rfl⟩ (by rfl))
  have hremoved := hclosed.run
    ((System.run_of_exec (rfl : runs.exec _ removes = some (.ok _))).of_actions
      (keeps_other (Or.inr rfl)))
  have hdtor := hremoved.run
    (System.Run.single (a := Action.destroyServer) ⟨fun _ => ?_, by rintro n ⟨⟩⟩ (by rfl))
  · have hdestroyed := hdtor.run
      (System.Run.single (a := Action.serverDestroyed) ⟨by rintro ⟨⟩, by rintro n ⟨⟩⟩ (by rfl))
    exact ⟨_, hdestroyed, rfl, rfl, (torn_down _ hdestroyed).1⟩
  · -- nothing is due when the server is destroyed
    rintro (⟨n, hn⟩ | ⟨l, n, hl⟩)
    · cases hn
    · cases l <;> cases hl

/-- The removal is in the queue of the base loop when the server is destroyed there. It is then
called on the destroyed server. -/
theorem removed_behind_dtor : (∃ t : World Bool, runs.Reachable System.always t ∧
      t.life = .destroyed ∧ runs.Fails t (.run false) .deadServer) ∧
    ¬ ∀ t : World Bool, runs.Reachable System.always t → t.Orderly := by
  have hrun := System.run_of_exec (rfl : runs.exec listening (establishes ++
    [.handleClose 0, .closeCallback true, .destroyServer, .destroyItem 0, .serverDestroyed]) =
      some (.ok _))
  have hreach := System.Reachable.run (System.Reachable.of_init listening_start) hrun
  refine ⟨⟨_, hreach, rfl, rfl⟩, ?_⟩
  intro hall
  exact (hall _ hreach).server (.run false) rfl

end Zing.Net.ServerLoops
