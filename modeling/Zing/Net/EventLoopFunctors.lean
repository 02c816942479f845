import Zing.Net.EventLoop

set_option autoImplicit false

/-! # The functor queue of an event loop

Two results about every interleaving of a loop with the threads that queue functors.

* `functors_fifo`: what was called, the rest of the batch and what is pending are together
  exactly what was pushed, in the order of the pushes.
* `no_lost_wakeup`: the owner never polls on a nonempty queue that nobody will wake it for,
  as long as it enters `loop()` with its queue announced. `queueInLoop` makes no wakeup when
  the owner calls it outside `loop()`, and a functor that is queued then waits for an unrelated
  event: entering `loop()` in such a state always leads to a poll that nothing announced.
-/

namespace Zing.Net.EventLoop

open Zing.Lib

variable {T F : Type}

/-! ## The order of the functors -/

/-- The owner is in `loop()`. -/
def Phase.inLoop {ι : Type} : Phase ι → Bool
  | outside => false
  | _ => true

/-- The owner is between the two stores to `callingPendingFunctors_`. -/
def Phase.calls {ι : Type} : Phase ι → Bool
  | swapping => true
  | calling _ _ => true
  | _ => false

/-- What holds in every state of a run. -/
structure Inv (s : World T F) : Prop where
  looping : s.loop.looping = s.phase.inLoop
  calling : s.loop.callingPendingFunctors = s.phase.calls
  order : s.executed ++ s.phase.rest ++ s.loop.pendingFunctors = s.pushed
  batchEnd_le : s.batchEnd ≤ s.pushed.length
  batch : ∀ rest inFunctor, s.phase = .calling rest inFunctor →
    s.executed ++ rest = s.pushed.take s.batchEnd

theorem inv_start : Inv (start : World T F) where
  looping := rfl
  calling := rfl
  order := rfl
  batchEnd_le := Nat.le_refl _
  batch := by intro rest inFunctor hp; cases hp

section step

variable {s t : World T F}

/-- A functor that is pushed comes behind all others, and leaves the batch as it is. -/
theorem Inv.push (h : Inv s) {l : EventLoop (Queued T F)} {f : T → Foreign} {q : Queued T F}
    (hp : l.pendingFunctors = s.loop.pendingFunctors ++ [q])
    (hc : l.callingPendingFunctors = s.loop.callingPendingFunctors)
    (hl : l.looping = s.loop.looping) :
    Inv { s with loop := l, foreign := f, pushed := s.pushed ++ [q] } where
  looping := hl.trans h.looping
  calling := hc.trans h.calling
  order := by
    show s.executed ++ s.phase.rest ++ l.pendingFunctors = s.pushed ++ [q]
    rw [hp, ← List.append_assoc, h.order]
  batchEnd_le := by
    have hle := h.batchEnd_le
    simp only [List.length_append]
    omega
  batch := by
    intro rest inFunctor hphase
    show s.executed ++ rest = (s.pushed ++ [q]).take s.batchEnd
    rw [List.take_append_of_le_length h.batchEnd_le]
    exact h.batch rest inFunctor hphase

/-- From one phase without a batch to another. -/
theorem Inv.toPhase (h : Inv s) {l : EventLoop (Queued T F)} {p : Phase (Queued T F)} {n : Nat}
    (hl : l.looping = p.inLoop) (hc : l.callingPendingFunctors = p.calls)
    (hp : l.pendingFunctors = s.loop.pendingFunctors) (hs : s.phase.rest = [])
    (hr : p.rest = []) (hnot : ∀ rest inFunctor, p ≠ .calling rest inFunctor) :
    Inv { s with loop := l, phase := p, polls := n } where
  looping := hl
  calling := hc
  order := by
    have horder := h.order
    rw [hs] at horder
    show s.executed ++ p.rest ++ l.pendingFunctors = s.pushed
    rw [hp, hr, horder]
  batchEnd_le := h.batchEnd_le
  batch := fun rest inFunctor hphase => absurd hphase (hnot rest inFunctor)

variable [DecidableEq T] {a : Action T F}

theorem Inv.moves (h : Inv s) (hm : Moves s a t) : Inv t := by
  have hlooping := h.looping
  have hcalling := h.calling
  have horder := h.order
  cases hm with
  | queueInLoop hu =>
      exact h.push (queueInLoop_pendingFunctors ..) (queueInLoop_calling ..)
        (queueInLoop_looping ..)
  | quit hu => exact { h with }
  | push hf => exact h.push rfl rfl rfl
  | setQuit hf => exact { h with }
  | wakeup hf => exact { h with }
  | loop hu hl =>
      -- `looping_` is not set, so `loop()` is called from outside
      rw [hl] at hlooping
      cases hp : s.phase with
      | outside =>
          rw [hp] at hcalling
          exact h.toPhase rfl hcalling rfl (by rw [hp]; rfl) rfl (by intro r i hr; cases hr)
      | _ => rw [hp] at hlooping; cases hlooping
  | storeQuit hp | poll hp hq | pollReturns hp | handleRead hp =>
      rw [hp] at hlooping hcalling
      exact h.toPhase hlooping hcalling rfl (by rw [hp]; rfl) rfl (by intro r i hr; cases hr)
  | leave hp hq =>
      rw [hp] at hcalling
      exact h.toPhase rfl hcalling rfl (by rw [hp]; rfl) rfl (by intro r i hr; cases hr)
  | handled hp =>
      rw [hp] at hlooping
      exact h.toPhase hlooping rfl rfl (by rw [hp]; rfl) rfl (by intro r i hr; cases hr)
  | swap hp =>
      rw [hp] at hlooping hcalling horder
      have hbatch : s.executed ++ s.loop.pendingFunctors = s.pushed := by
        rw [← horder]
        show _ = s.executed ++ [] ++ s.loop.pendingFunctors
        rw [List.append_nil]
      refine ⟨hlooping, hcalling, ?_, Nat.le_refl _, ?_⟩
      · show s.executed ++ s.loop.pendingFunctors ++ [] = s.pushed
        rw [List.append_nil, hbatch]
      · intro rest inFunctor hcall
        cases hcall
        show s.executed ++ s.loop.pendingFunctors = s.pushed.take s.pushed.length
        rw [List.take_length, hbatch]
  | @runFunctor functor rest inFunctor hp =>
      have hbatch := h.batch _ _ hp
      rw [hp] at hlooping hcalling horder
      refine ⟨hlooping, hcalling, ?_, h.batchEnd_le, ?_⟩
      · show s.executed ++ [functor] ++ rest ++ s.loop.pendingFunctors = s.pushed
        rw [← horder, Phase.rest, List.append_assoc s.executed, List.singleton_append]
      · intro rest' inFunctor' hcall
        cases hcall
        show s.executed ++ [functor] ++ rest = s.pushed.take s.batchEnd
        rw [← hbatch, List.append_assoc, List.singleton_append]
  | finishFunctors hp =>
      rw [hp] at hlooping
      exact h.toPhase hlooping rfl rfl (by rw [hp]; rfl) rfl (by intro r i hr; cases hr)

theorem reachable_inv {P : World T F → Action T F → Prop} (h : runs.Reachable P s) : Inv s :=
  h.invariant (by rintro _ rfl; exact inv_start) fun _ _ _ hi _ hn => hi.moves (next_moves hn)

/-- The functors of one thread, in the order of its pushes: those that were called, then those
of the batch, then those that are pending. -/
theorem Inv.thread_order (h : Inv s) (thread : Option T) :
    s.executed.filter (fun q => q.thread = thread) ++
      s.phase.rest.filter (fun q => q.thread = thread) ++
      s.loop.pendingFunctors.filter (fun q => q.thread = thread) =
    s.pushed.filter (fun q => q.thread = thread) := by
  rw [← h.order, List.filter_append, List.filter_append]

/-- Every functor is called at most once, in the order of the pushes; those of one thread are
called in that thread's order; and a batch consists of functors that had been pushed when it
was swapped out. -/
theorem functors_fifo (s : World T F) (h : runs.Reachable System.always s) :
    s.executed ++ s.phase.rest ++ s.loop.pendingFunctors = s.pushed ∧
    (∀ thread : Option T,
      s.executed.filter (fun q => q.thread = thread) ++
        s.phase.rest.filter (fun q => q.thread = thread) ++
        s.loop.pendingFunctors.filter (fun q => q.thread = thread) =
      s.pushed.filter (fun q => q.thread = thread)) ∧
    ∀ rest inFunctor, s.phase = .calling rest inFunctor →
      s.executed ++ rest = s.pushed.take s.batchEnd ∧
        s.loop.pendingFunctors = s.pushed.drop s.batchEnd := by
  have hinv := reachable_inv h
  refine ⟨hinv.order, hinv.thread_order, ?_⟩
  intro rest inFunctor hp
  have hbatch := hinv.batch rest inFunctor hp
  have horder := hinv.order
  rw [hp, Phase.rest, hbatch] at horder
  refine ⟨hbatch, ?_⟩
  have hsplit := List.take_append_drop s.batchEnd s.pushed
  exact List.append_cancel_left (horder.trans hsplit.symm)

end step

/-- Two functors, pushed by another thread before and while the first of them is called. -/
def fifoSample : List (Action Unit Nat) :=
  [.loop, .storeQuit, .condition, .push () 1, .wakeup (), .pollReturns true, .handleRead,
    .handled, .swap, .runFunctor, .queueInLoop 2, .push () 3]

theorem functors_fifo_sample : ∃ s : World Unit Nat, runs.Run System.always start fifoSample s ∧
    s.executed = [⟨some (), 1⟩] ∧
    s.executed ++ s.phase.rest ++ s.loop.pendingFunctors =
      [⟨some (), 1⟩, ⟨none, 2⟩, ⟨some (), 3⟩] := by
  have hrun := System.run_of_exec (rfl : runs.exec start fifoSample = some (.ok _))
  exact ⟨_, hrun, rfl, (functors_fifo _ ⟨start, fifoSample, rfl, hrun⟩).1⟩

/-! ## What is still to be called -/

section queued

variable {s t : World T F}

/-- The functors that were pushed and not called yet, the next one first. -/
def World.queued (s : World T F) : List (Queued T F) := s.phase.rest ++ s.loop.pendingFunctors

theorem Inv.executed_queued (h : Inv s) : s.executed ++ s.queued = s.pushed := by
  rw [World.queued, ← List.append_assoc]
  exact h.order

/-- A step that calls nothing. -/
theorem Inv.queued_append (h : Inv s) (ht : Inv t) {more : List (Queued T F)}
    (he : t.executed = s.executed) (hp : t.pushed = s.pushed ++ more) :
    t.queued = s.queued ++ more := by
  have hall : s.executed ++ t.queued = s.executed ++ (s.queued ++ more) := by
    calc s.executed ++ t.queued = t.pushed := by rw [← he, ht.executed_queued]
      _ = s.executed ++ (s.queued ++ more) := by
        rw [hp, ← h.executed_queued, List.append_assoc]
  exact List.append_cancel_left hall

/-- A step that calls a functor. -/
theorem Inv.queued_cons (h : Inv s) (ht : Inv t) {q : Queued T F}
    (he : t.executed = s.executed ++ [q]) (hp : t.pushed = s.pushed) :
    s.queued = q :: t.queued := by
  have hall : s.executed ++ s.queued = s.executed ++ q :: t.queued := by
    calc s.executed ++ s.queued = t.pushed := by rw [h.executed_queued, hp]
      _ = s.executed ++ q :: t.queued := by
        rw [← ht.executed_queued, he, List.append_assoc, List.singleton_append]
  exact List.append_cancel_left hall

end queued

/-! ## Wakeups -/

section wakeup

variable {s t : World T F}

/-- What is pending will wake the owner up: the counter is nonzero, or a thread that has
pushed is about to make it so. -/
def Announced (s : World T F) : Prop :=
  s.loop.pendingFunctors ≠ [] → s.loop.wakeupFd ≠ 0 ∨ ∃ thread, s.foreign thread = .pushed

/-- The owner does not poll on pending functors that are not announced. -/
def NoLostWakeup (s : World T F) : Prop := s.phase = .polling → Announced s

/-- `loop()` is entered with the queue announced. -/
def EntersAnnounced (s : World T F) : Action T F → Prop
  | .loop => Announced s
  | _ => True

/-- The phases from the swap of one batch to the next poll, in which the queue must be
announced; behind the poll the functors of the queue are called without a wakeup. -/
def Phase.towardsPoll {ι : Type} : Phase ι → Bool
  | entered => true
  | condition => true
  | polling => true
  | calling _ _ => true
  | _ => false

theorem announced_of_wakeupFd (h : s.loop.wakeupFd ≠ 0) : Announced s := fun _ => Or.inl h

variable [DecidableEq T] {a : Action T F}

/-- From the swap to the next poll the queue stays announced. -/
theorem announced_moves (hinv : Inv s) (h : s.phase.towardsPoll = true → Announced s)
    (hp : EntersAnnounced s a) (hm : Moves s a t) :
    t.phase.towardsPoll = true → Announced t := by
  have hcalling := hinv.calling
  cases hm with
  | @queueInLoop cb hu =>
      intro htp
      -- of the phases with user code only a functor is in front of the poll
      cases hphase : s.phase with
      | calling rest inFunctor =>
          rw [hphase] at hcalling
          exact announced_of_wakeupFd (queueInLoop_wakeupFd _ _ hcalling)
      | outside | handling _ =>
          simp only [hphase] at htp
          cases htp
      | _ =>
          rw [hphase] at hu
          cases hu
  | quit hu => exact h
  | @push thread cb hf => exact fun _ _ => Or.inr ⟨thread, Function.update_self ..⟩
  | @setQuit thread hf =>
      intro htp hpend
      rcases h htp hpend with hw | ⟨θ, hθ⟩
      · exact Or.inl hw
      · refine Or.inr ⟨θ, ?_⟩
        have hne : θ ≠ thread := by
          rintro rfl
          rw [hf] at hθ
          cases hθ
        show Function.update s.foreign thread .quitting θ = .pushed
        rw [Function.update_of_ne hne]
        exact hθ
  | wakeup hf => exact fun _ => announced_of_wakeupFd (wakeup_wakeupFd_ne_zero _)
  | loop hu hl => exact fun _ hpend => hp hpend
  | storeQuit hphase | poll hphase hq =>
      intro _ hpend
      exact h (by rw [hphase]; rfl) hpend
  | swap hphase => exact fun _ hpend => absurd rfl hpend
  | runFunctor hphase | finishFunctors hphase =>
      intro _ hpend
      exact h (by rw [hphase]; rfl) hpend
  | leave | pollReturns | handleRead | handled =>
      intro htp
      cases htp

theorem reachable_announced (h : runs.Reachable EntersAnnounced s) :
    Inv s ∧ (s.phase.towardsPoll = true → Announced s) := by
  refine h.invariant (I := fun s => Inv s ∧ (s.phase.towardsPoll = true → Announced s)) ?_ ?_
  · rintro _ rfl
    exact ⟨inv_start, by intro hp; cases hp⟩
  · rintro u a v ⟨hinv, hann⟩ hp hn
    have hm := next_moves hn
    exact ⟨hinv.moves hm, announced_moves hinv hann hp hm⟩

/-- Entering `loop()` with functors that nobody announced leads to a poll on them. -/
theorem polls_unannounced (hn : runs.Next s .loop t) (hs : ¬ Announced s) :
    ∃ as u, runs.Run System.always t as u ∧ ¬ NoLostWakeup u := by
  cases next_moves hn with
  | loop hu hl =>
      let u : World T F :=
        { s with
          loop := { s.loop with looping := true, quit := false }
          phase := .polling
          polls := s.polls + 1 }
      refine ⟨[.storeQuit, .condition], u, ?_, fun hno => hs (hno rfl)⟩
      exact System.run_of_exec rfl

/-- The owner never polls on functors that nobody announced, if each `loop()` is entered with
the queue announced; and every other way of entering `loop()` can lead to such a poll. -/
theorem no_lost_wakeup :
    (∀ s : World T F, runs.Reachable EntersAnnounced s → NoLostWakeup s) ∧
    ∀ s t : World T F, runs.Reachable System.always s → runs.Next s .loop t → ¬ Announced s →
      ∃ as u, runs.Run System.always t as u ∧ ¬ NoLostWakeup u := by
  constructor
  · intro s h hp
    exact (reachable_announced h).2 (by rw [hp]; rfl)
  · intro s t _ hn hs
    exact polls_unannounced hn hs

end wakeup

/-- Another thread queues a functor before `loop()` is entered: the owner polls on an
announced queue. -/
theorem no_lost_wakeup_sample : ∃ s : World Unit Nat, runs.Reachable EntersAnnounced s ∧
    s.phase = .polling ∧ s.loop.pendingFunctors ≠ [] ∧
    (s.loop.wakeupFd ≠ 0 ∨ ∃ thread, s.foreign thread = .pushed) := by
  have hqueue : runs.Run EntersAnnounced (start : World Unit Nat) [.push () 1, .wakeup ()] _ :=
    System.Run.cons trivial rfl (System.Run.single trivial rfl)
  have hloop := hqueue.snoc (a := Action.loop) (fun _ => Or.inl (Nat.succ_ne_zero 0)) rfl
  have hstore := hloop.snoc (a := Action.storeQuit) trivial rfl
  have hpoll := hstore.snoc (a := Action.condition) trivial rfl
  refine ⟨_, ⟨start, _, rfl, hpoll⟩, rfl, List.cons_ne_nil _ _, ?_⟩
  exact no_lost_wakeup.1 _ ⟨start, _, rfl, hpoll⟩ rfl (List.cons_ne_nil _ _)

/-- The owner queues a functor and enters `loop()`: it polls, and nothing will wake it. -/
theorem owner_waits_for_poll : ¬ ∀ s : World Unit Nat, runs.Reachable System.always s →
    s.phase = .polling → s.loop.pendingFunctors ≠ [] →
    s.loop.wakeupFd ≠ 0 ∨ ∃ thread, s.foreign thread = .pushed := by
  intro hall
  have hrun := System.run_of_exec
    (rfl : (runs (T := Unit) (F := Nat)).exec start
      [.queueInLoop 1, .loop, .storeQuit, .condition] = some (.ok _))
  rcases hall _ ⟨start, _, rfl, hrun⟩ rfl (List.cons_ne_nil _ _) with hw | ⟨thread, hf⟩
  · exact hw rfl
  · cases hf

end Zing.Net.EventLoop
