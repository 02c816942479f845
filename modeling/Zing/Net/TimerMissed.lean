import Zing.Net.TimerHandOver

set_option autoImplicit false

/-! # Missed cancels

A cancel that the owner executes while the timer's `addTimerInLoop` waits in the functor queue
finds nothing: the timer is added after its cancel, and runs. `cancel_finds_iff` shows that
this is the only way for a cancel to miss a timer that is not due. For a missed cancel it gives
the run in which the timer starts: the batch of `handleRead` and the functors that wait are
brought to their ends, and the loop goes on to the expiration.
-/

namespace Zing.Net

open Zing.Lib

namespace EventLoop

/-! ## The loop on its own -/

variable {T F : Type} [DecidableEq T]

/-- The steps that the owner takes with no call of a functor and none of the user. -/
def Action.ofLoop : Action T F → Bool
  | .loop | .storeQuit | .condition | .pollReturns _ | .handleRead | .handled | .swap
  | .finishFunctors => true
  | _ => false

/-- The loop gets to its event handlers, with the wakeup channel handled. -/
def Handles (s : World T F) : Prop :=
  ∃ as t, runs.Run (fun _ a => a.ofLoop = true) s as t ∧ t.phase = .handling false

variable {s t : World T F} {a : Action T F}

theorem handles_of_next (hn : runs.Next s a t) (ha : a.ofLoop = true) (ht : Handles t) :
    Handles s := by
  obtain ⟨as, u, hrun, hu⟩ := ht
  exact ⟨a :: as, u, hrun.cons ha hn, hu⟩

theorem handles_of_handling {wakeupActive : Bool} (hp : s.phase = .handling wakeupActive) :
    Handles s := by
  cases wakeupActive with
  | false => exact ⟨[], s, System.Run.nil, hp⟩
  | true =>
      have hn : runs.Next s .handleRead
          { s with loop := s.loop.handleRead, phase := .handling false } := by
        show step s .handleRead = _
        simp only [step, hp]
      exact handles_of_next hn rfl ⟨[], _, System.Run.nil, rfl⟩

theorem handles_of_polling (hp : s.phase = .polling) : Handles s := by
  have hn : runs.Next s (.pollReturns false)
      { s with loop := { s.loop with eventHandling := true }, phase := .handling false } := by
    show step s (.pollReturns false) = _
    simp [step, hp]
  exact handles_of_next hn rfl (handles_of_handling rfl)

theorem handles_of_open (hp : s.phase = .condition) (hq : s.loop.quit = false) : Handles s := by
  have hn : runs.Next s .condition { s with phase := .polling, polls := s.polls + 1 } := by
    show step s .condition = _
    simp [step, hp, hq]
  exact handles_of_next hn rfl (handles_of_polling rfl)

theorem handles_of_entered (hp : s.phase = .entered) : Handles s := by
  have hn : runs.Next s .storeQuit
      { s with loop := { s.loop with quit := false }, phase := .condition } := by
    show step s .storeQuit = _
    simp only [step, hp]
  exact handles_of_next hn rfl (handles_of_open rfl rfl)

/-- The owner may call `loop()`. -/
theorem handles_of_outside (hp : s.phase = .outside) (hl : s.loop.looping = false) :
    Handles s := by
  have hn : runs.Next s .loop
      { s with loop := { s.loop with looping := true }, phase := .entered } := by
    show step s .loop = _
    have hu : s.phase.userCode = true := by rw [hp]; rfl
    simp only [step, hu, if_true, check_bind hl]
  exact handles_of_next hn rfl (handles_of_entered rfl)

theorem handles_of_condition (hp : s.phase = .condition) : Handles s := by
  cases hq : s.loop.quit with
  | false => exact handles_of_open hp hq
  | true =>
      have hn : runs.Next s .condition
          { s with loop := { s.loop with looping := false }, phase := .outside } := by
        show step s .condition = _
        simp [step, hp, hq]
      exact handles_of_next hn rfl (handles_of_outside rfl rfl)

/-- With no functor in front of it the loop gets to its event handlers. -/
theorem Inv.handles (h : Inv s) (hswap : s.phase ≠ .swapping)
    (hcall : ∀ functor rest inFunctor, s.phase ≠ .calling (functor :: rest) inFunctor) :
    Handles s := by
  cases hp : s.phase with
  | outside =>
      have hl := h.looping
      rw [hp] at hl
      exact handles_of_outside hp hl
  | entered => exact handles_of_entered hp
  | condition => exact handles_of_condition hp
  | polling => exact handles_of_polling hp
  | handling wakeupActive => exact handles_of_handling hp
  | swapping => exact absurd hp hswap
  | calling batch inFunctor =>
      cases batch with
      | cons functor rest => exact absurd hp (hcall functor rest inFunctor)
      | nil =>
          have hn : runs.Next s .finishFunctors
              { s with
                loop := { s.loop with callingPendingFunctors := false }
                phase := .condition } := by
            show step s .finishFunctors = _
            simp only [step, hp]
          exact handles_of_next hn rfl (handles_of_condition rfl)

theorem Moves.ofLoop (hm : Moves s a t) (ha : a.ofLoop = true) :
    t.executed = s.executed ∧ t.pushed = s.pushed := by
  cases hm with
  | queueInLoop | quit | push | setQuit | wakeup | runFunctor => cases ha
  | _ => exact ⟨rfl, rfl⟩

/-- On its own the loop leaves the functors where they are in the queue. -/
theorem Inv.queued_ofLoop (h : Inv s) {as : List (Action T F)}
    (hr : runs.Run (fun _ a => a.ofLoop = true) s as t) : Inv t ∧ t.queued = s.queued := by
  refine hr.invariant (I := fun u => Inv u ∧ u.queued = s.queued) ?_ ⟨h, rfl⟩
  rintro u b v ⟨hu, hq⟩ hb hn
  have hm := next_moves hn
  obtain ⟨he, hp⟩ := hm.ofLoop hb
  have hv := hu.moves hm
  refine ⟨hv, ?_⟩
  rw [hu.queued_append hv he (hp.trans (List.append_nil _).symm), List.append_nil, hq]

end EventLoop

namespace TimerQueue

/-! ## The end of a batch -/

variable {s t : State} {a : Action}

/-- A step that is possible leads somewhere. -/
theorem Inv.next (h : Inv s) (hsome : (step s a).isSome = true) :
    ∃ t, runs.Next s a t ∧ Moves s a t := by
  obtain ⟨r, hr⟩ := Option.isSome_iff_exists.mp hsome
  obtain ⟨t, rfl, hm⟩ := step_moves h hr
  exact ⟨t, hr, hm⟩

/-- The steps that bring `handleRead` to its end. -/
def Action.ofBatch : Action → Bool
  | .runCallback | .finish _ => true
  | _ => false

theorem ends_of_rest {now : Timestamp} {expired rest : List Entry} {inCallback : Bool}
    (h : Inv s)
    (hb : s.batch = some
      { now := now, expired := expired, rest := rest, inCallback := inCallback }) :
    ∃ as t, runs.Run (fun _ a => a.ofBatch = true) s as t ∧ t.batch = none := by
  induction rest generalizing s inCallback with
  | nil =>
      obtain ⟨t, hn, hm⟩ := h.next (a := .finish now) (by simp only [step, hb, Option.isSome_some])
      refine ⟨[.finish now], t, System.Run.single rfl hn, ?_⟩
      cases hm
      rfl
  | cons it rest ih =>
      obtain ⟨t, hn, hm⟩ := h.next (a := .runCallback) (by simp only [step, hb, Option.isSome_some])
      have hinv := h.moves hm
      cases hm with
      | runCallback hb' ht =>
          rw [hb, Option.some.injEq] at hb'
          cases hb'
          obtain ⟨as, u, hrun, hu⟩ := ih hinv rfl
          exact ⟨.runCallback :: as, u, hrun.cons rfl hn, hu⟩

theorem Inv.batch_ends (h : Inv s) :
    ∃ as t, runs.Run (fun _ a => a.ofBatch = true) s as t ∧ t.batch = none := by
  cases hb : s.batch with
  | none => exact ⟨[], s, System.Run.nil, hb⟩
  | some b => exact ends_of_rest h hb

theorem Stays.trans {s₁ s₂ s₃ : State} (h : Stays s₁ s₂) (h' : Stays s₂ s₃) :
    Stays s₁ s₃ where
  pending := h'.pending.trans h.pending
  added := h'.added.trans h.added
  live := by
    intro id hp hl
    exact h'.live id (h.pending ▸ hp) (h.live id hp hl)
  deleted := fun id hd => h'.deleted id (h.deleted id hd)
  numCreated := h'.numCreated.trans h.numCreated

theorem Inv.stays_ofBatch (h : Inv s) {as : List Action}
    (hr : runs.Run (fun _ a => a.ofBatch = true) s as t) : Inv t ∧ Stays s t := by
  refine hr.invariant (I := fun u => Inv u ∧ Stays s u) ?_
    ⟨h, rfl, rfl, fun _ _ hl => hl, fun _ hd => hd, rfl⟩
  rintro u b v ⟨hu, hstays⟩ hb hn
  have hm := next_moves hu hn
  have hquiet : b.quiet = true := by
    cases b with
    | newTimer | addTimerInLoop => cases hb
    | _ => rfl
  exact ⟨hu.moves hm, hstays.trans (hm.stays hu hquiet)⟩

/-- At its expiration a timer of the sets gets into the batch. -/
theorem Inv.expires (h : Inv s) {id : TimerId} (hid : id ∈ s.added)
    (hl : s.queue.memory.Live id) (hb : s.batch = none) :
    ∃ now t, runs.Next s (.handleRead now) t ∧ Inv t ∧ t.InRest id := by
  have hnot : ¬ s.InBatch id := by
    rintro ⟨-, hin⟩
    rw [State.batchTimers, hb] at hin
    cases hin
  have hsets : s.Waiting id := by
    rcases h.one_place hid with hw | hbatch | hf
    · exact hw.1
    · exact absurd hbatch.2.1 hnot
    · exact absurd hl (h.wf.memory.deleted_not_live id hf.2.2)
  obtain ⟨-, -, e, he, heq⟩ := hsets
  obtain ⟨t, hn, hm⟩ := h.next (a := .handleRead e.when)
    (by simp only [step, hb, Option.isSome_some])
  have hinv := h.moves hm
  refine ⟨e.when, t, hn, hinv, ?_⟩
  cases hm with
  | @handleRead _ q hb' hwf hmemory ht hq =>
      refine ⟨?_, _, rfl, ?_⟩
      · show q.memory.Live id
        rw [hmemory]
        exact hl
      · rw [← heq]
        exact List.mem_map_of_mem (h.wf.mem_expiredAt.mpr ⟨he, le_refl _⟩)

/-- The record of what was started grows. -/
theorem Moves.started (hm : Moves s a t) : ∃ more, t.started = s.started ++ more := by
  cases hm with
  | runCallback hb ht => exact ⟨_, rfl⟩
  | _ => exact ⟨[], (List.append_nil _).symm⟩

end TimerQueue

namespace TimerThreads

open EventLoop (World Queued)

variable {T : Type} [DecidableEq T] {s t u : State T} {a : Action T}

/-! ## Runs of the parts -/

/-- Some run leads from `s` to `t`. -/
def Leads (s t : State T) : Prop := ∃ as, runs.Run System.always s as t

theorem Leads.refl (s : State T) : Leads s s := ⟨[], System.Run.nil⟩

theorem Leads.trans (h : Leads s t) (h' : Leads t u) : Leads s u := by
  obtain ⟨as, ha⟩ := h
  obtain ⟨bs, hb⟩ := h'
  exact ⟨as ++ bs, ha.append hb⟩

theorem Leads.of_next (h : runs.Next s a t) : Leads s t := ⟨[a], System.Run.single trivial h⟩

theorem Leads.inv (h : Leads s t) (hs : Inv s) : Inv t := by
  obtain ⟨as, hr⟩ := h
  exact hr.invariant (fun _ _ _ hi _ hn => hi.moves (next_moves hn)) hs

omit [DecidableEq T] in
theorem inTimers_of_next {b : TimerQueue.Action} {q : TimerQueue.State}
    (h : TimerQueue.runs.Next s.timers b q) :
    s.inTimers b = some (.ok { s with timers := q }) := by
  have hs : TimerQueue.step s.timers b = some (.ok q) := h
  rw [State.inTimers, hs]
  rfl

theorem inWorld_of_next {b : EventLoop.Action T Functor} {w : World T Functor}
    (h : EventLoop.runs.Next s.world b w) :
    s.inWorld b = some (.ok { s with world := w }) := by
  have hs : EventLoop.step s.world b = some (.ok w) := h
  rw [State.inWorld, hs]
  rfl

/-- With the owner outside `addTimer` the timer queue may go through with its batch. -/
theorem leads_ofBatch (hc : s.calls none = .idle) {bs : List TimerQueue.Action}
    {q : TimerQueue.State}
    (hr : TimerQueue.runs.Run (fun _ a => a.ofBatch = true) s.timers bs q) :
    Leads s { s with timers := q } := by
  induction hr with
  | nil => exact Leads.refl s
  | @snoc q q' as b hr hb hn ih =>
      refine ih.trans ?_
      have hin := inTimers_of_next (s := { s with timers := q }) hn
      cases b with
      | runCallback =>
          refine Leads.of_next (a := .runCallback) ?_
          show step _ .runCallback = _
          rw [step, if_pos hc, hin]
      | finish clock =>
          refine Leads.of_next (a := .finish clock) ?_
          show step _ (.finish clock) = _
          rw [step, if_pos hc, hin]
      | _ => cases hb

/-- The owner may go on with the loop. -/
theorem leads_ofLoop (hf : s.OwnerFree) {bs : List (EventLoop.Action T Functor)}
    {w : World T Functor} (hr : EventLoop.runs.Run (fun _ a => a.ofLoop = true) s.world bs w) :
    Leads s { s with world := w } := by
  induction hr with
  | nil => exact Leads.refl s
  | @snoc w w' as b hr hb hn ih =>
      refine ih.trans (Leads.of_next (a := .inLoop b) ?_)
      have hallows : State.Allows { s with world := w } b := by
        cases EventLoop.next_moves hn with
        | queueInLoop | quit | push | setQuit | wakeup | runFunctor => cases hb
        | loop hu hl =>
            refine ⟨hf.1, hu, ?_⟩
            have hbatch := Option.isNone_iff_eq_none.mp hf.2
            show s.timers.userCode = true
            rw [TimerQueue.State.userCode, hbatch]
        | _ => exact hf
      show step _ (.inLoop b) = _
      rw [step, if_pos hallows]
      exact inWorld_of_next (s := { s with world := w }) hn

theorem started_append {as : List (Action T)} (h : Inv s)
    (hr : runs.Run System.always s as t) :
    ∃ more, t.timers.started = s.timers.started ++ more := by
  have hall := hr.invariant
    (I := fun u => Inv u ∧ ∃ more, u.timers.started = s.timers.started ++ more) ?_
    ⟨h, [], (List.append_nil _).symm⟩
  · exact hall.2
  · rintro u b v ⟨hu, more, hmore⟩ - hn
    have hm := next_moves hn
    refine ⟨hu.moves hm, ?_⟩
    rcases hm.timers with heq | ⟨c, hc⟩
    · exact ⟨more, by rw [heq, hmore]⟩
    · obtain ⟨more', hmore'⟩ := (TimerQueue.next_moves hu.timers hc).started
      exact ⟨more ++ more', by rw [hmore', hmore, List.append_assoc]⟩

theorem NeverStarts.of_leads {id : TimerId} (h : NeverStarts s id) (hs : Inv s)
    (hl : Leads s t) : NeverStarts t id := by
  intro bs v hv
  obtain ⟨as, hr⟩ := hl
  obtain ⟨more, hmore⟩ := started_append (Leads.inv ⟨as, hr⟩ hs) hv
  obtain ⟨later, hlater, hnot⟩ := h (as ++ bs) v (hr.append hv)
  obtain ⟨first, hfirst, -⟩ := h as t hr
  refine ⟨more, hmore, fun hin => hnot ?_⟩
  rw [hmore, hfirst, List.append_assoc, List.append_cancel_left_eq] at hlater
  rw [← hlater]
  exact List.mem_append_right _ hin

/-! ## A timer that was missed -/

/-- The owner goes on with a timer that is not deleted, and nothing is left to cancel it. -/
structure Missed (s : State T) (r : Returned) : Prop where
  inv : Inv s
  returned : r ∈ s.returned
  live : s.Live r.timer
  free : s.OwnerFree
  uncancelled : ∀ q ∈ s.world.queued, q.functor ≠ .cancelInLoop r.timer

variable {r : Returned}

/-- The loop on its own changes nothing about the timer. -/
theorem Missed.ofLoop (h : Missed s r) {bs : List (EventLoop.Action T Functor)}
    {w : World T Functor} (hr : EventLoop.runs.Run (fun _ a => a.ofLoop = true) s.world bs w) :
    Leads s { s with world := w } ∧ Missed { s with world := w } r ∧
      w.queued = s.world.queued := by
  have hl := leads_ofLoop h.free hr
  obtain ⟨-, hq⟩ := h.inv.world.queued_ofLoop hr
  refine ⟨hl, ?_, hq⟩
  exact {
    inv := hl.inv h.inv
    returned := h.returned
    live := h.live
    free := h.free
    uncancelled := by
      show ∀ q ∈ w.queued, _
      rw [hq]
      exact h.uncancelled }

/-- A functor that the loop calls may be any but a cancel of the timer. -/
theorem Missed.call (h : Missed s r) {functor : Queued T Functor}
    {rest : List (Queued T Functor)} {inFunctor : Bool}
    (hp : s.world.phase = .calling (functor :: rest) inFunctor) :
    ∃ t, runs.Next s (.runFunctor 0) t ∧ Missed t r ∧ t.world.phase = .calling rest true ∧
      t.world.loop = s.world.loop := by
  let w : World T Functor :=
    { s.world with phase := .calling rest true, executed := s.world.executed ++ [functor] }
  have hqueued : s.world.queued = functor :: w.queued := by
    rw [World.queued, hp]
    rfl
  have hbatch : s.timers.batch = none := Option.isNone_iff_eq_none.mp h.free.2
  have huser : s.timers.userCode = true := by rw [TimerQueue.State.userCode, hbatch]
  have hcancel : ∀ q ∈ w.queued, q.functor ≠ .cancelInLoop r.timer := by
    intro q hq
    apply h.uncancelled
    rw [hqueued]
    exact List.mem_cons_of_mem functor hq
  -- it is enough to know what the functor does to the timer queue
  have hdone : ∀ q, ({ s with world := w } : State T).runInLoop none 0 functor.functor =
      some (.ok { s with world := w, timers := q }) → q.queue.memory.Live r.timer →
      q.batch = none → ∃ t, runs.Next s (.runFunctor 0) t ∧ Missed t r ∧
        t.world.phase = .calling rest true ∧ t.world.loop = s.world.loop := by
    intro q hq hl hb
    have hn : runs.Next s (.runFunctor 0) { s with world := w, timers := q } := by
      show step s (.runFunctor 0) = _
      simp only [step, hp, if_pos h.free.1]
      exact hq
    refine ⟨_, hn, ?_, rfl, rfl⟩
    exact {
      inv := h.inv.moves (next_moves hn)
      returned := h.returned
      live := hl
      free := ⟨h.free.1, by rw [hb]; rfl⟩
      uncancelled := hcancel }
  cases hf : functor.functor with
  | user => exact hdone s.timers (by rw [hf]; rfl) h.live hbatch
  | addTimerInLoop p =>
      have hp : p ∈ s.timers.pending := by
        apply h.inv.waiting_pending
        rw [State.waiting, hqueued, List.filterMap_cons, hf]
        exact List.mem_cons_self
      obtain ⟨q, hn, hm⟩ := h.inv.timers.next (a := .addTimerInLoop p 0) (by
        rw [TimerQueue.step, if_pos ⟨huser, hp⟩, Option.isSome_some])
      obtain ⟨-, -, -, -, hmemory⟩ := hm.of_add
      refine hdone q ?_ ?_ ?_
      · rw [hf]
        exact inTimers_of_next (s := { s with world := w }) hn
      · rw [hmemory]
        exact h.live
      · cases hm
        exact hbatch
  | cancelInLoop timerId =>
      have hne : r.timer ≠ timerId := by
        rintro rfl
        refine h.uncancelled functor ?_ hf
        rw [hqueued]
        exact List.mem_cons_self
      obtain ⟨q, hn, hm⟩ := h.inv.timers.next (a := .cancelInLoop timerId) (by
        rw [TimerQueue.step, if_pos huser, Option.isSome_some])
      refine hdone q ?_ (hm.cancel_live h.inv.timers h.live hne) ?_
      · rw [hf]
        exact inTimers_of_next (s := { s with world := w }) hn
      · cases hm <;> exact hbatch

/-- The functors of a batch are called one after the other. -/
theorem Missed.callAll {rest : List (Queued T Functor)} {inFunctor : Bool} (h : Missed s r)
    (hp : s.world.phase = .calling rest inFunctor) :
    ∃ t, Leads s t ∧ Missed t r ∧ (∃ b, t.world.phase = .calling [] b) ∧
      t.world.loop = s.world.loop := by
  induction rest generalizing s inFunctor with
  | nil => exact ⟨s, Leads.refl s, h, ⟨inFunctor, hp⟩, rfl⟩
  | cons functor rest ih =>
      obtain ⟨t, hn, ht, hphase, hloop⟩ := h.call hp
      obtain ⟨u, hu, hmissed, hend, hloop'⟩ := ih ht hphase
      exact ⟨u, (Leads.of_next hn).trans hu, hmissed, hend, hloop'.trans hloop⟩

/-- With no functor of a batch left the loop gets to its event handlers. -/
theorem Missed.handles (h : Missed s r) (hswap : s.world.phase ≠ .swapping)
    (hcall : ∀ functor rest inFunctor,
      s.world.phase ≠ .calling (functor :: rest) inFunctor) :
    ∃ t, Leads s t ∧ Missed t r ∧ t.world.phase = .handling false ∧
      t.world.queued = s.world.queued := by
  obtain ⟨bs, w, hrun, hw⟩ := h.inv.world.handles hswap hcall
  obtain ⟨hl, hmissed, hq⟩ := h.ofLoop hrun
  exact ⟨_, hl, hmissed, hw, hq⟩

/-- All functors of the queue are called. -/
theorem Missed.swap (h : Missed s r) (hp : s.world.phase = .swapping) :
    ∃ t, Leads s t ∧ Missed t r ∧ (∃ b, t.world.phase = .calling [] b) ∧
      t.world.queued = [] := by
  have hn : EventLoop.runs.Next s.world .swap
      { s.world with
        loop := { s.world.loop with pendingFunctors := [] }
        phase := .calling s.world.loop.pendingFunctors false
        batchEnd := s.world.pushed.length } := by
    show EventLoop.step s.world .swap = _
    simp only [EventLoop.step, hp]
  obtain ⟨hl, hmissed, -⟩ := h.ofLoop (System.Run.single rfl hn)
  obtain ⟨t, ht, hmissed', ⟨b, hb⟩, hloop⟩ := hmissed.callAll rfl
  refine ⟨t, hl.trans ht, hmissed', ⟨b, hb⟩, ?_⟩
  rw [World.queued, hb, hloop]
  rfl

/-- The functor queue is worked off. -/
theorem Missed.emptied (h : Missed s r) :
    ∃ t, Leads s t ∧ Missed t r ∧ (∃ b, t.world.phase = .calling [] b) ∧
      t.world.queued = [] := by
  -- from the event handlers the loop goes on to the swap
  have hhandling : ∀ u : State T, Missed u r → u.world.phase = .handling false →
      ∃ t, Leads u t ∧ Missed t r ∧ (∃ b, t.world.phase = .calling [] b) ∧
        t.world.queued = [] := by
    intro u hu hp
    have hn : EventLoop.runs.Next u.world .handled
        { u.world with
          loop := { u.world.loop with eventHandling := false, callingPendingFunctors := true }
          phase := .swapping } := by
      show EventLoop.step u.world .handled = _
      simp only [EventLoop.step, hp]
    obtain ⟨hl, hmissed, -⟩ := hu.ofLoop (System.Run.single rfl hn)
    obtain ⟨t, ht, hrest⟩ := hmissed.swap rfl
    exact ⟨t, hl.trans ht, hrest⟩
  by_cases hswap : s.world.phase = .swapping
  · exact h.swap hswap
  · by_cases hcall : ∃ functor rest inFunctor,
        s.world.phase = .calling (functor :: rest) inFunctor
    · obtain ⟨functor, rest, inFunctor, hp⟩ := hcall
      obtain ⟨t, ht, hmissed, ⟨b, hb⟩, -⟩ := h.callAll hp
      obtain ⟨u, hu, hmissed', hphase, -⟩ :=
        hmissed.handles (by rw [hb]; simp) (by rw [hb]; simp)
      obtain ⟨v, hv, hrest⟩ := hhandling u hmissed' hphase
      exact ⟨v, ht.trans (hu.trans hv), hrest⟩
    · obtain ⟨u, hu, hmissed, hphase, -⟩ := h.handles hswap
        fun functor rest inFunctor hp => hcall ⟨functor, rest, inFunctor, hp⟩
      obtain ⟨v, hv, hrest⟩ := hhandling u hmissed hphase
      exact ⟨v, hu.trans hv, hrest⟩

/-- The timer starts in some run. -/
theorem Missed.starts (h : Missed s r) : ¬ NeverStarts s r.timer := by
  intro hnever
  -- its `addTimerInLoop` is called, and the loop gets to its event handlers
  obtain ⟨t, hst, ht, ⟨b, hb⟩, hempty⟩ := h.emptied
  obtain ⟨u, htu, hu, hphase, hqueued⟩ := ht.handles (by rw [hb]; simp) (by rw [hb]; simp)
  have hadded : r.timer ∈ u.timers.added := by
    apply (hu.inv.returned r hu.returned).1.resolve_right
    rintro ⟨-, hin⟩
    rw [State.waiting, hqueued, hempty] at hin
    cases hin
  -- the timer is due
  obtain ⟨now, q, hn, hinv, hl, batch, hbatch, hin⟩ :=
    hu.inv.timers.expires hadded hu.live (Option.isNone_iff_eq_none.mp hu.free.2)
  have hread : runs.Next u (.handleRead now) { u with timers := q } := by
    show step u (.handleRead now) = _
    rw [step, if_pos ⟨hu.free, by rw [hphase]; rfl⟩]
    exact inTimers_of_next hn
  -- the callbacks of the batch run one after the other
  obtain ⟨bs, q', later, hrun, hstarted, hstart⟩ :=
    TimerQueue.starts_of_rest hinv hbatch hl hin
  have hcallbacks : Leads { u with timers := q } { u with timers := q' } := by
    apply leads_ofBatch (s := { u with timers := q }) hu.free.1
    exact hrun.weaken fun _ _ heq => by rw [heq]; rfl
  have hsu : Leads s u := hst.trans htu
  have hnever' := hnever.of_leads h.inv (hsu.trans (Leads.of_next hread))
  obtain ⟨as, has⟩ := hcallbacks
  obtain ⟨later', hlater, hnot⟩ := hnever' as _ has
  rw [hstarted, List.append_cancel_left_eq] at hlater
  rw [← hlater] at hnot
  exact hnot hstart

/-! ## Cancels -/

/-- The owner executes a cancel outside `addTimer`, and no call of it returns. -/
theorem of_cancels {timerId : TimerId} (hc : s.Cancels timerId a) (hn : runs.Next s a t) :
    t.calls none = .idle ∧ t.returned = s.returned := by
  cases next_moves hn with
  | cancel hm hr hq => exact ⟨hm.1, rfl⟩
  | postCancel => exact absurd hc.1 (Option.some_ne_none _)
  | callAdd hidle | callCancel hidle | callUser hidle => exact ⟨hidle, rfl⟩
  | _ => exact absurd hc id

/-- A timer whose `addTimerInLoop` waits when it is cancelled starts in some run, unless it is
cancelled once more. -/
theorem Inv.starts_after_cancel (h : Inv s) (hr : r ∈ s.returned)
    (hwaits : s.Waits r.timer) (hc : s.Cancels r.value a) (hn : runs.Next s a t)
    (hlast : ∀ q ∈ t.world.queued, q.functor ≠ .cancelInLoop r.timer) :
    ¬ NeverStarts t r.timer := by
  have ht := h.moves (next_moves hn)
  obtain ⟨hidle, hreturned⟩ := of_cancels hc hn
  have hcancel := (TimerQueue.next_moves h.timers (h.cancels hc hn)).stays h.timers rfl
  -- the batch of `handleRead` leaves the timer alone too
  obtain ⟨bs, q, hrun, hbatch⟩ := ht.timers.batch_ends
  obtain ⟨-, hstays⟩ := ht.timers.stays_ofBatch hrun
  have hl := leads_ofBatch hidle hrun
  have hlive : q.queue.memory.Live r.timer :=
    (hcancel.trans hstays).live _ (h.waiting_pending _ hwaits.2) hwaits.1
  have hmissed : Missed { t with timers := q } r := {
    inv := hl.inv ht
    returned := by
      rw [hreturned]
      exact hr
    live := hlive
    free := ⟨hidle, by rw [hbatch]; rfl⟩
    uncancelled := hlast }
  intro hnever
  exact hmissed.starts (hnever.of_leads ht hl)

/-- Let a thread have the id of a timer from `addTimer`, and let the owner execute a cancel of
it while the timer is not due. Then the timer never starts again, provided that its
`addTimerInLoop` does not still wait in the functor queue. If it does, the timer may start,
unless another cancel waits behind it. -/
theorem cancel_finds_timer (s s' : State T) (a : Action T) (r : Returned)
    (h : runs.Reachable System.always s) (hr : r ∈ s.returned)
    (hdue : ¬ s.timers.InRest r.timer) (hc : s.Cancels r.value a) (hn : runs.Next s a s') :
    (¬ s.Waits r.timer → NeverStarts s' r.timer) ∧
    (s.Waits r.timer → (∀ q ∈ s'.world.queued, q.functor ≠ .cancelInLoop r.timer) →
      ¬ NeverStarts s' r.timer) := by
  have hinv := reachable_inv h
  constructor
  · intro hwaits
    apply neverStarts_of_spent (hinv.moves (next_moves hn))
    exact hinv.spent_of_cancel hr hdue hwaits (hinv.cancels hc hn)
  · intro hwaits hlast
    exact hinv.starts_after_cancel hr hwaits hc hn hlast

/-- Another thread adds a timer while the loop handles its events. -/
def addSample : List (Action Unit) :=
  firstEvents ++
    [.newTimer (some ()) 8 100 { positive := false, micros := 0, nonneg := Interval.nonneg_zero },
      .runInLoop (some ()) 0, .inLoop (.wakeup ()), .returnId (some ())]

/-- A cancel by an event handler of the next round. -/
theorem cancel_finds_timer_sample : ∃ s s' : State Unit,
    runs.Run System.always start (addSample ++ nextEvents) s ∧
      runs.Next s (.cancel none ⟨8, 1⟩) s' ∧ NeverStarts s' ⟨8, 1⟩ := by
  have hrun := System.run_of_exec
    (rfl : runs.exec start (addSample ++ nextEvents) = some (.ok _))
  refine ⟨_, _, hrun, rfl, ?_⟩
  refine (cancel_finds_timer _ _ (.cancel none ⟨8, 1⟩) { timer := ⟨8, 1⟩, value := ⟨8, 1⟩ }
    ⟨start, _, rfl, hrun⟩ List.mem_cons_self ?_ ⟨rfl, rfl⟩ rfl).1 ?_
  · rintro ⟨-, b, hb, -⟩
    cases hb
  · rintro ⟨-, hin⟩
    cases hin

/-- A cancel by an event handler of the same round comes before the timer is added. -/
theorem missed_timer_starts : ¬ ∀ (s s' : State Unit) (a : Action Unit) (r : Returned),
    runs.Reachable System.always s → r ∈ s.returned → ¬ s.timers.InRest r.timer →
    s.Cancels r.value a → runs.Next s a s' → NeverStarts s' r.timer := by
  intro hall
  have hrun := System.run_of_exec (rfl : runs.exec start addSample = some (.ok _))
  have hnever := hall _ _ (.cancel none ⟨8, 1⟩) { timer := ⟨8, 1⟩, value := ⟨8, 1⟩ }
    ⟨start, _, rfl, hrun⟩ List.mem_cons_self (by rintro ⟨-, b, hb, -⟩; cases hb) ⟨rfl, rfl⟩ rfl
  obtain ⟨later, hlater, hnot⟩ := hnever (nextEvents ++ [.handleRead 200, .runCallback]) _
    (System.run_of_exec rfl)
  have hstarted : [(⟨8, 1⟩ : TimerId)] = [] ++ later := hlater
  rw [List.nil_append] at hstarted
  rw [← hstarted] at hnot
  exact hnot List.mem_cons_self

end TimerThreads

end Zing.Net
