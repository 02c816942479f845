import Zing.Net.TimerCancel
import Zing.Net.TimerThreads

set_option autoImplicit false

/-! # Handing timers over to the loop

On the owner's thread `addTimerInLoop` and `cancelInLoop` run at once, and for another thread
they wait in the functor queue. `Inv` says which timers are where: a timer whose construction was
finished but whose `addTimerInLoop` has not run is pending in the timer queue, and waits in the
functor queue once it was handed over. A cancel of a timer that does not wait there, and is not
due, puts an end to it (`Inv.spent_of_cancel`).
-/

namespace Zing.Net

open Zing.Lib

namespace TimerQueue

/-! ## Timers that are not added yet -/

/-- Neither allocates nor adds a timer. -/
def Action.quiet : Action → Bool
  | .newTimer _ _ _ | .addTimerInLoop _ _ => false
  | _ => true

/-- What such steps leave as it is. -/
structure Stays (s t : State) : Prop where
  pending : t.pending = s.pending
  added : t.added = s.added
  live : ∀ id : TimerId, id.timer ∈ s.pending → s.queue.memory.Live id → t.queue.memory.Live id
  deleted : ∀ id ∈ s.queue.memory.deleted, id ∈ t.queue.memory.deleted
  numCreated : t.queue.memory.numCreated = s.queue.memory.numCreated

variable {s t : State} {a : Action}

/-- A timer that is not added yet is out of reach of every step but the two that are left out: a
cancel or a batch deletes timers of the sets or of the batch only. -/
theorem Moves.stays (h : Inv s) (hm : Moves s a t) (ha : a.quiet = true) : Stays s t := by
  cases hm with
  | newTimer | add => cases ha
  | @cancelActive id timer hu hid ht =>
      have hlater := Memory.later_remove ht
      refine ⟨rfl, rfl, ?_, hlater.deleted_mono, rfl⟩
      intro other hother hl
      -- a timer of the sets is none of those outside
      obtain ⟨-, e, he, heq⟩ := (h.wf.active id).mp hid
      have hne : other.timer ≠ id.timer := by
        rw [← heq]
        exact (h.wf.outside_notMem _ (List.mem_append_left _ hother) e he).symm
      exact (Memory.live_remove timer other).mpr ⟨hl, hne⟩
  | cancelOther hu hid =>
      refine ⟨rfl, rfl, ?_, ?_, ?_⟩ <;> rw [noted_memory]
      · exact fun _ _ hl => hl
      · exact fun _ hd => hd
  | handleRead hb hwf hmem ht he =>
      refine ⟨rfl, rfl, ?_, ?_, ?_⟩ <;> simp only [hmem]
      · exact fun _ _ hl => hl
      · exact fun _ hd => hd
  | runCallback hb ht => exact ⟨rfl, rfl, fun _ _ hl => hl, fun _ hd => hd, rfl⟩
  | @finish now clock expired inCallback q hb hwf hs =>
      refine ⟨rfl, rfl, ?_, ?_, ?_⟩ <;> rw [rearmed_memory]
      · intro id hp hl
        obtain ⟨u, hu⟩ := hwf.outside_live id.timer hp
        obtain ⟨v, hv, hseq⟩ := hs.later.live_before ⟨id.timer, u.sequence⟩ ⟨u, hu, rfl⟩
        obtain ⟨w, hw, hw'⟩ := hl
        have hvw : v = w := Option.some.inj (hv.symm.trans hw)
        exact ⟨u, hu, by rw [← hw', ← hvw, hseq]⟩
      · exact hs.later.deleted_mono
      · exact hs.later.numCreated_eq

/-- A cancel deletes no timer but its own. -/
theorem Moves.cancel_live (h : Inv s) {id other : TimerId}
    (hm : Moves s (.cancelInLoop id) t) (hl : s.queue.memory.Live other) (hne : other ≠ id) :
    t.queue.memory.Live other := by
  cases hm with
  | @cancelActive _ timer hu hid ht =>
      refine (Memory.live_remove timer other).mpr ⟨hl, fun heq => hne ?_⟩
      exact hl.unique ((h.wf.active id).mp hid).1 heq
  | cancelOther hu hid =>
      rw [noted_memory]
      exact hl

/-- What `addTimerInLoop` does to the timers that are not added yet. -/
theorem Moves.of_add {p : Addr} {now : Timestamp} (hm : Moves s (.addTimerInLoop p now) t) :
    ∃ timer, s.queue.memory.live p = some timer ∧ t.pending = s.pending.erase p ∧
      t.added = s.added ++ [⟨p, timer.sequence⟩] ∧ t.queue.memory = s.queue.memory := by
  cases hm with
  | @add _ _ timer hu hp ht => exact ⟨timer, ht, rfl, rfl, added_memory now⟩

/-- What `new Timer` does to them. -/
theorem Moves.of_new {p : Addr} {when : Timestamp} {interval : Interval}
    (hm : Moves s (.newTimer p when interval) t) :
    s.queue.memory.Available p ∧ t.pending = p :: s.pending ∧ t.added = s.added ∧
      t.queue.memory = s.queue.memory.new p when interval := by
  cases hm with
  | newTimer hp => exact ⟨hp, rfl, rfl, rfl⟩

/-- A timer that is not added yet is live, and its address is not free. -/
theorem Inv.pending_live (h : Inv s) {p : Addr} (hp : p ∈ s.pending) :
    s.queue.memory.live p ≠ none := by
  obtain ⟨timer, ht⟩ := h.wf.outside_live p (List.mem_append_left _ hp)
  rw [ht]
  exact Option.some_ne_none timer

end TimerQueue

namespace TimerThreads

open EventLoop (World Queued)

variable {T : Type}

/-! ## The invariant -/

/-- The timer that a functor adds. -/
def Functor.adds : Functor → Option Addr
  | .addTimerInLoop timer => some timer
  | _ => none

/-- The timers whose `addTimerInLoop` waits in the functor queue. -/
def State.waiting (s : State T) : List Addr :=
  s.world.queued.filterMap fun q => q.functor.adds

/-- The timer was handed to `addTimerInLoop`, which has run or waits. -/
def State.HandedOver (s : State T) (id : TimerId) : Prop :=
  id ∈ s.timers.added ∨ s.Live id ∧ id.timer ∈ s.waiting

/-- What holds in every state of a run. The timers that wait in the functor queue are pending, each
once (`waiting_nodup`, `waiting_pending`). A call that has allocated its timer and not handed it
over has a pending one that does not wait and that no other call has (`constructed`, `apart`).
Behind the hand-over the timer is added or waits (`handed`), and the id that was returned is that
of the timer unless it has been deleted (`returned`). -/
structure Inv (s : State T) : Prop where
  world : EventLoop.Inv s.world
  timers : TimerQueue.Inv s.timers
  waiting_nodup : s.waiting.Nodup
  waiting_pending : ∀ p ∈ s.waiting, p ∈ s.timers.pending
  constructed : ∀ thread id, s.calls thread = .constructed id →
    s.Live id ∧ id.timer ∈ s.timers.pending ∧ id.timer ∉ s.waiting
  apart : ∀ thread thread' id id', s.calls thread = .constructed id →
    s.calls thread' = .constructed id' → id.timer = id'.timer → thread = thread'
  handed : ∀ thread id, s.calls thread = .handed id → s.HandedOver id
  returned : ∀ r ∈ s.returned, s.HandedOver r.timer ∧
    (r.value = r.timer ∨ r.timer ∈ s.timers.queue.memory.deleted)

theorem inv_start : Inv (start : State T) where
  world := EventLoop.inv_start
  timers := TimerQueue.inv_start
  waiting_nodup := List.nodup_nil
  waiting_pending := by intro p hp; cases hp
  constructed := by intro thread id hc; cases hc
  apart := by intro thread thread' id id' hc; cases hc
  handed := by intro thread id hc; cases hc
  returned := by intro r hr; cases hr

variable [DecidableEq T] {s t : State T} {a : Action T}

omit [DecidableEq T] in
/-- A step of the timer queue that neither allocates nor adds, with nothing done to the timers
that wait. -/
theorem Inv.stays (h : Inv s) (hw : EventLoop.Inv t.world) (hq : TimerQueue.Inv t.timers)
    (hstays : TimerQueue.Stays s.timers t.timers) (hwaiting : t.waiting = s.waiting)
    (hcalls : t.calls = s.calls) (hreturned : t.returned = s.returned) : Inv t := by
  have hlive : ∀ id : TimerId, id.timer ∈ s.waiting → s.Live id → t.Live id :=
    fun id hid => hstays.live id (h.waiting_pending _ hid)
  have hover : ∀ id, s.HandedOver id → t.HandedOver id := by
    rintro id (hid | ⟨hl, hid⟩)
    · exact Or.inl (hstays.added ▸ hid)
    · exact Or.inr ⟨hlive id hid hl, hwaiting ▸ hid⟩
  constructor
  · exact hw
  · exact hq
  · rw [hwaiting]
    exact h.waiting_nodup
  · rw [hwaiting, hstays.pending]
    exact h.waiting_pending
  · intro thread id hc
    rw [hcalls] at hc
    obtain ⟨hl, hp, hnot⟩ := h.constructed thread id hc
    rw [hwaiting, hstays.pending]
    exact ⟨hstays.live id hp hl, hp, hnot⟩
  · rw [hcalls]
    exact h.apart
  · intro thread id hc
    rw [hcalls] at hc
    exact hover id (h.handed thread id hc)
  · intro r hr
    rw [hreturned] at hr
    obtain ⟨hid, hvalue⟩ := h.returned r hr
    exact ⟨hover _ hid, hvalue.imp_right (hstays.deleted _)⟩

omit [DecidableEq T] in
theorem stays_refl (q : TimerQueue.State) : TimerQueue.Stays q q :=
  ⟨rfl, rfl, fun _ _ hl => hl, fun _ hd => hd, rfl⟩

/-! ### The functor queue

What the functor queue of `Net/EventLoop` does in a step, seen from `queued`, which is all that
waits there in order. -/

/-- What another thread queues comes last. -/
theorem waiting_of_push {thread : T} {cb : Functor} {w : World T Functor}
    (h : EventLoop.Inv s.world) (hw : EventLoop.runs.Next s.world (.push thread cb) w) :
    w.queued = s.world.queued ++ [⟨some thread, cb⟩] := by
  have hm := EventLoop.next_moves hw
  have hinv := h.moves hm
  cases hm with
  | push hf => exact h.queued_append hinv rfl rfl

/-- What the loop calls was the first. -/
theorem waiting_of_call {functor : Queued T Functor} {w : World T Functor}
    (h : EventLoop.Inv s.world) (hw : EventLoop.runs.Next s.world .runFunctor w)
    (he : w.executed = s.world.executed ++ [functor]) :
    s.world.queued = functor :: w.queued := by
  have hm := EventLoop.next_moves hw
  have hinv := h.moves hm
  cases hm with
  | runFunctor hp => exact h.queued_cons hinv he rfl

/-- In the other steps of the loop nothing leaves the queue, and only the user's functors come in.
-/
theorem waiting_of_allows {b : EventLoop.Action T Functor} {w : World T Functor}
    (h : EventLoop.Inv s.world) (ha : s.Allows b) (hw : EventLoop.runs.Next s.world b w) :
    ∃ more, w.queued = s.world.queued ++ more ∧ ∀ q ∈ more, q.functor = .user := by
  have hm := EventLoop.next_moves hw
  have hinv := h.moves hm
  cases hm with
  | queueInLoop hu =>
      refine ⟨_, h.queued_append hinv rfl rfl, ?_⟩
      intro q hq
      rw [List.mem_singleton.mp hq]
      exact ha.1
  | push hf =>
      refine ⟨_, h.queued_append hinv rfl rfl, ?_⟩
      intro q hq
      rw [List.mem_singleton.mp hq]
      exact ha.1
  | runFunctor hp => exact absurd ha id
  | _ =>
      refine ⟨[], h.queued_append hinv rfl (List.append_nil _).symm, ?_⟩
      intro q hq
      cases hq

/-! ### Steps of addTimer -/

omit [DecidableEq T] in
/-- `addTimerInLoop` of a timer, called by the owner in `addTimer` or from the queue. -/
theorem Inv.added (h : Inv s) {p : Addr} {now : Timestamp} (hw : EventLoop.Inv t.world)
    (hq : TimerQueue.Moves s.timers (.addTimerInLoop p now) t.timers)
    (hnodup : t.waiting.Nodup) (hwaiting : ∀ r, r ∈ t.waiting ↔ r ∈ s.waiting ∧ r ≠ p)
    (hconstructed : ∀ thread id, t.calls thread = .constructed id →
      s.calls thread = .constructed id ∧ id.timer ≠ p)
    (hhanded : ∀ thread id, t.calls thread = .handed id →
      s.calls thread = .handed id ∨ s.Live id ∧ id.timer = p)
    (hreturned : t.returned = s.returned) : Inv t := by
  obtain ⟨timer, ht, hpending, hadded, hmemory⟩ := hq.of_add
  have hlive : ∀ id, s.Live id ↔ t.Live id := by
    intro id
    rw [State.Live, State.Live, hmemory]
  have hrest : ∀ r ∈ s.timers.pending, r ≠ p → r ∈ t.timers.pending := by
    intro r hr hne
    rw [hpending]
    exact (List.mem_erase_of_ne hne).mpr hr
  have hnow : ∀ id, s.Live id → id.timer = p → t.HandedOver id := by
    intro id hl hid
    -- a live timer at `p` is the one that was added
    have heq : id = ⟨p, timer.sequence⟩ := hl.unique ⟨timer, ht, rfl⟩ hid
    refine Or.inl ?_
    rw [hadded, heq]
    exact List.mem_append_right _ (List.mem_singleton_self _)
  have hover : ∀ id, s.HandedOver id → t.HandedOver id := by
    rintro id (hid | ⟨hl, hid⟩)
    · refine Or.inl ?_
      rw [hadded]
      exact List.mem_append_left _ hid
    · by_cases hp : id.timer = p
      · exact hnow id hl hp
      -- another timer goes on waiting
      · exact Or.inr ⟨(hlive id).mp hl, (hwaiting _).mpr ⟨hid, hp⟩⟩
  constructor
  · exact hw
  · exact h.timers.moves hq
  · exact hnodup
  · intro r hr
    obtain ⟨hr, hne⟩ := (hwaiting r).mp hr
    exact hrest r (h.waiting_pending r hr) hne
  · intro thread id hc
    obtain ⟨hc, hne⟩ := hconstructed thread id hc
    obtain ⟨hl, hp, hnot⟩ := h.constructed thread id hc
    exact ⟨(hlive id).mp hl, hrest _ hp hne, fun hin => hnot ((hwaiting _).mp hin).1⟩
  · intro thread thread' id id' hc hc' heq
    exact h.apart thread thread' id id' (hconstructed _ _ hc).1 (hconstructed _ _ hc').1 heq
  · intro thread id hc
    rcases hhanded thread id hc with hc | ⟨hl, hp⟩
    · exact hover id (h.handed thread id hc)
    · exact hnow id hl hp
  · intro r hr
    rw [hreturned] at hr
    obtain ⟨hid, hvalue⟩ := h.returned r hr
    rw [hmemory]
    exact ⟨hover _ hid, hvalue⟩

/-- The thread is at another place of its call, and the others are where they were. -/
theorem goes_calls {thread thread' : Option T} {c c' : Call} :
    Function.update s.calls thread c thread' = c' ↔
      thread' = thread ∧ c = c' ∨ thread' ≠ thread ∧ s.calls thread' = c' := by
  by_cases hth : thread' = thread
  · rw [hth, Function.update_self]
    simp
  · rw [Function.update_of_ne hth]
    simp [hth]

/-- A thread is in `addTimer` behind `new Timer`. No other call has this address, since the
allocator gives out no live one. -/
theorem Inv.newTimer (h : Inv s) {thread : Option T} {p : Addr} {when : Timestamp}
    {interval : Interval} {q : TimerQueue.State}
    (hq : TimerQueue.Moves s.timers (.newTimer p when interval) q) :
    Inv { s.goes thread (.constructed ⟨p, s.timers.queue.memory.numCreated + 1⟩) with
      timers := q
      created := s.created ++ [⟨p, s.timers.queue.memory.numCreated + 1⟩] } := by
  obtain ⟨hfree, hpending, hadded, hmemory⟩ := hq.of_new
  have hlive := Memory.live_new when interval hfree.2.2
  have hold : ∀ id, s.Live id → q.queue.memory.Live id := by
    intro id hl
    rw [hmemory]
    exact (hlive id).mpr (Or.inl hl)
  have hfresh : p ∉ s.timers.pending := fun hp => h.timers.pending_live hp hfree.2.2
  have hover : ∀ id, s.HandedOver id →
      id ∈ q.added ∨ q.queue.memory.Live id ∧ id.timer ∈ s.waiting := by
    rintro id (hid | ⟨hl, hid⟩)
    · exact Or.inl (hadded ▸ hid)
    · exact Or.inr ⟨hold id hl, hid⟩
  have hpend : ∀ r ∈ s.timers.pending, r ∈ q.pending := by
    intro r hr
    rw [hpending]
    exact List.mem_cons_of_mem p hr
  constructor
  · exact h.world
  · exact h.timers.moves hq
  · exact h.waiting_nodup
  · exact fun r hr => hpend r (h.waiting_pending r hr)
  · intro thread' id hc
    rcases goes_calls.mp hc with ⟨-, hid⟩ | ⟨-, hc⟩
    · cases hid
      refine ⟨?_, ?_, fun hin => hfresh (h.waiting_pending _ hin)⟩
      · show q.queue.memory.Live _
        rw [hmemory]
        exact (hlive _).mpr (Or.inr rfl)
      · show p ∈ q.pending
        rw [hpending]
        exact List.mem_cons_self
    · obtain ⟨hl, hp, hnot⟩ := h.constructed thread' id hc
      exact ⟨hold id hl, hpend _ hp, hnot⟩
  · intro thread₁ thread₂ id₁ id₂ hc₁ hc₂ heq
    -- the new timer is at an address that no other call has
    have hne : ∀ thread' id, s.calls thread' = .constructed id → id.timer ≠ p := by
      rintro thread' id hc rfl
      exact hfresh (h.constructed thread' id hc).2.1
    rcases goes_calls.mp hc₁ with ⟨hth₁, hid₁⟩ | ⟨-, hc₁⟩
    · rcases goes_calls.mp hc₂ with ⟨hth₂, -⟩ | ⟨-, hc₂⟩
      · exact hth₁.trans hth₂.symm
      · cases hid₁
        exact absurd heq.symm (hne _ _ hc₂)
    · rcases goes_calls.mp hc₂ with ⟨-, hid₂⟩ | ⟨-, hc₂⟩
      · cases hid₂
        exact absurd heq (hne _ _ hc₁)
      · exact h.apart _ _ _ _ hc₁ hc₂ heq
  · intro thread' id hc
    rcases goes_calls.mp hc with ⟨-, hid⟩ | ⟨-, hc⟩
    · cases hid
    · exact hover id (h.handed thread' id hc)
  · intro r hr
    obtain ⟨hid, hvalue⟩ := h.returned r hr
    refine ⟨hover _ hid, ?_⟩
    show r.value = r.timer ∨ r.timer ∈ q.queue.memory.deleted
    rw [hmemory]
    exact hvalue

/-- The timer is queued for `addTimerInLoop`. -/
theorem Inv.post (h : Inv s) {thread : T} {timer : TimerId} {w : World T Functor}
    (hc : s.calls (some thread) = .constructed timer) (hw : EventLoop.Inv w)
    (hqueued : w.queued = s.world.queued ++ [⟨some thread, .addTimerInLoop timer.timer⟩]) :
    Inv { s.goes (some thread) (.handed timer) with world := w } := by
  have hwaiting : State.waiting { s.goes (some thread) (.handed timer) with world := w } =
      s.waiting ++ [timer.timer] := by
    show w.queued.filterMap _ = _
    rw [hqueued, List.filterMap_append]
    rfl
  obtain ⟨hlive, hpending, hnot⟩ := h.constructed _ _ hc
  have hover : ∀ id, s.HandedOver id → id ∈ s.timers.added ∨
      s.Live id ∧ id.timer ∈ s.waiting ++ [timer.timer] := by
    rintro id (hid | ⟨hl, hid⟩)
    · exact Or.inl hid
    · exact Or.inr ⟨hl, List.mem_append_left _ hid⟩
  constructor
  · exact hw
  · exact h.timers
  -- the timer was not waiting yet: its call had only constructed it
  · rw [hwaiting, List.nodup_append]
    refine ⟨h.waiting_nodup, List.nodup_singleton _, ?_⟩
    intro r hr r' hr' heq
    rw [List.mem_singleton.mp hr'] at heq
    exact hnot (heq ▸ hr)
  · rw [hwaiting]
    intro r hr
    rcases List.mem_append.mp hr with hr | hr
    · exact h.waiting_pending r hr
    · rw [List.mem_singleton.mp hr]
      exact hpending
  · intro thread' id hc'
    rcases goes_calls.mp hc' with ⟨-, hid⟩ | ⟨hne, hc'⟩
    · cases hid
    · obtain ⟨hl, hp, hnot'⟩ := h.constructed thread' id hc'
      refine ⟨hl, hp, ?_⟩
      rw [hwaiting, List.mem_append, List.mem_singleton, not_or]
      exact ⟨hnot', fun heq => hne (h.apart _ _ _ _ hc' hc heq)⟩
  · intro thread₁ thread₂ id₁ id₂ hc₁ hc₂ heq
    rcases goes_calls.mp hc₁ with ⟨-, hid₁⟩ | ⟨-, hc₁⟩
    · cases hid₁
    · rcases goes_calls.mp hc₂ with ⟨-, hid₂⟩ | ⟨-, hc₂⟩
      · cases hid₂
      · exact h.apart _ _ _ _ hc₁ hc₂ heq
  · intro thread' id hc'
    rw [State.HandedOver, hwaiting]
    rcases goes_calls.mp hc' with ⟨-, hid⟩ | ⟨-, hc'⟩
    · cases hid
      exact Or.inr ⟨hlive, List.mem_append_right _ (List.mem_singleton_self _)⟩
    · exact hover id (h.handed thread' id hc')
  · intro r hr
    obtain ⟨hid, hvalue⟩ := h.returned r hr
    rw [State.HandedOver, hwaiting]
    exact ⟨hover _ hid, hvalue⟩

/-- What `addTimer` returns belongs to its timer, unless that was deleted meanwhile. -/
theorem Inv.returnId (h : Inv s) {thread : Option T} {timer : TimerId} {u : Timer}
    (hc : s.calls thread = .handed timer)
    (hu : s.timers.queue.memory.live timer.timer = some u) :
    Inv { s.goes thread .idle with
      returned := s.returned ++ [{ timer := timer, value := ⟨timer.timer, u.sequence⟩ }] } := by
  -- a timer that is still live has kept its sequence number
  have hnew : (⟨timer.timer, u.sequence⟩ : TimerId) = timer ∨
      timer ∈ s.timers.queue.memory.deleted := by
    have hl : s.Live timer → (⟨timer.timer, u.sequence⟩ : TimerId) = timer :=
      fun hl => Memory.Live.unique (m := s.timers.queue.memory) ⟨u, hu, rfl⟩ hl rfl
    rcases h.handed thread timer hc with hadded | ⟨hlive, -⟩
    · rcases h.timers.added timer hadded with hdel | ⟨hlive, -⟩
      · exact Or.inr hdel
      · exact Or.inl (hl hlive)
    · exact Or.inl (hl hlive)
  have hcalls : ∀ thread' c, Function.update s.calls thread .idle thread' = c → c ≠ .idle →
      s.calls thread' = c := by
    intro thread' c hc' hne
    rcases goes_calls.mp hc' with ⟨-, hidle⟩ | ⟨-, hc'⟩
    · exact absurd hidle.symm hne
    · exact hc'
  refine { h with constructed := ?_, apart := ?_, handed := ?_, returned := ?_ }
  · intro thread' id hc'
    exact h.constructed thread' id (hcalls _ _ hc' (by simp))
  · intro thread₁ thread₂ id₁ id₂ hc₁ hc₂ heq
    exact h.apart _ _ _ _ (hcalls _ _ hc₁ (by simp)) (hcalls _ _ hc₂ (by simp)) heq
  · intro thread' id hc'
    exact h.handed thread' id (hcalls _ _ hc' (by simp))
  · intro r hr
    rcases List.mem_append.mp hr with hr | hr
    · exact h.returned r hr
    · rw [List.mem_singleton.mp hr]
      exact ⟨h.handed thread timer hc, hnew⟩

/-- By cases on the step. Those of the timer queue that neither allocate nor add leave everything
that is said here as it is. -/
theorem Inv.moves (h : Inv s) (hm : Moves s a t) : Inv t := by
  have hworld : EventLoop.Inv t.world := by
    rcases hm.world with heq | ⟨b, hb⟩
    · rw [heq]
      exact h.world
    · exact h.world.moves (EventLoop.next_moves hb)
  have htimers : TimerQueue.Inv t.timers := by
    rcases hm.timers with heq | ⟨b, hb⟩
    · rw [heq]
      exact h.timers
    · exact h.timers.moves (TimerQueue.next_moves h.timers hb)
  cases hm with
  | newTimer hm hq => exact h.newTimer (TimerQueue.next_moves h.timers hq)
  | @add timer now q hc hq =>
      obtain ⟨hl, hp, hnot⟩ := h.constructed _ _ hc
      refine h.added hworld (TimerQueue.next_moves h.timers hq) h.waiting_nodup ?_ ?_ ?_ rfl
      · intro r
        refine ⟨fun hr => ⟨hr, ?_⟩, And.left⟩
        rintro rfl
        exact hnot hr
      · intro thread id hc'
        rcases goes_calls.mp hc' with ⟨-, hid⟩ | ⟨hne, hc'⟩
        · cases hid
        · exact ⟨hc', fun heq => hne (h.apart _ _ _ _ hc' hc heq)⟩
      · intro thread id hc'
        rcases goes_calls.mp hc' with ⟨-, hid⟩ | ⟨-, hc'⟩
        · cases hid
          exact Or.inr ⟨hl, rfl⟩
        · exact Or.inl hc'
  | post hc hw => exact h.post hc hworld (waiting_of_push h.world hw)
  | returnId hc ht => exact h.returnId hc ht
  | cancel hm hr hq | handleRead hc hq | runCallback hc hq | finish hc hq =>
      have hstays := (TimerQueue.next_moves h.timers hq).stays h.timers rfl
      exact h.stays hworld htimers hstays rfl rfl rfl
  | postCancel hm hr hw =>
      refine h.stays hworld htimers (stays_refl _) ?_ rfl rfl
      show List.filterMap _ (World.queued _) = _
      rw [waiting_of_push h.world hw, List.filterMap_append]
      exact List.append_nil _
  | @callAdd functor timer now w q hc hf hw he hq =>
      have hwaiting : s.waiting = timer :: w.queued.filterMap fun q => q.functor.adds := by
        rw [State.waiting, waiting_of_call h.world hw he, List.filterMap_cons, hf]
        rfl
      have hnodup := h.waiting_nodup
      rw [hwaiting, List.nodup_cons] at hnodup
      -- the functor that is called is the first that waits
      have hfirst : timer ∈ s.waiting := by
        rw [hwaiting]
        exact List.mem_cons_self
      refine h.added hworld (TimerQueue.next_moves h.timers hq) hnodup.2 ?_ ?_
        (fun _ _ hc' => Or.inl hc') rfl
      · intro r
        rw [hwaiting]
        constructor
        · intro hr
          exact ⟨List.mem_cons_of_mem timer hr, fun heq => hnodup.1 (heq ▸ hr)⟩
        · rintro ⟨hr, hne⟩
          exact (List.mem_cons.mp hr).resolve_left hne
      · intro thread id hc'
        refine ⟨hc', fun heq => (h.constructed _ _ hc').2.2 ?_⟩
        rw [heq]
        exact hfirst
  | callCancel hc hf hw he hq =>
      have hstays := (TimerQueue.next_moves h.timers hq).stays h.timers rfl
      refine h.stays hworld htimers hstays ?_ rfl rfl
      rw [State.waiting, State.waiting, waiting_of_call h.world hw he, List.filterMap_cons, hf]
      rfl
  | callUser hc hf hw he =>
      refine h.stays hworld htimers (stays_refl _) ?_ rfl rfl
      rw [State.waiting, State.waiting, waiting_of_call h.world hw he, List.filterMap_cons, hf]
      rfl
  | inLoop ha hw =>
      obtain ⟨more, hmore, huser⟩ := waiting_of_allows h.world ha hw
      refine h.stays hworld htimers (stays_refl _) ?_ rfl rfl
      show List.filterMap _ (World.queued _) = _
      rw [hmore, List.filterMap_append]
      -- what the user queues adds no timer
      have hnone : more.filterMap (fun q => q.functor.adds) = [] := by
        apply List.filterMap_eq_nil_iff.mpr
        intro q hq
        rw [huser q hq]
        rfl
      rw [hnone, List.append_nil]
      rfl

theorem reachable_inv {P : State T → Action T → Prop} (h : runs.Reachable P s) : Inv s :=
  h.invariant (by rintro _ rfl; exact inv_start) fun _ _ _ hi _ hn => hi.moves (next_moves hn)

/-! ## Cancelling -/

/-- The step executes `cancelInLoop(timerId)`: on the owner's thread, or as a functor. -/
def State.Cancels (s : State T) (timerId : TimerId) : Action T → Prop
  | .cancel thread id => thread = none ∧ id = timerId
  | .runFunctor _ => ∃ thread rest inFunctor,
      s.world.phase = .calling (⟨thread, .cancelInLoop timerId⟩ :: rest) inFunctor
  | _ => False

/-- The timer's `addTimerInLoop` waits in the functor queue. -/
def State.Waits (s : State T) (id : TimerId) : Prop := s.Live id ∧ id.timer ∈ s.waiting

/-- No run from `s` starts the callback of the timer. -/
def NeverStarts (s : State T) (id : TimerId) : Prop :=
  ∀ as t, runs.Run System.always s as t →
    ∃ later, t.timers.started = s.timers.started ++ later ∧ id ∉ later

/-- A step that executes the cancel is one of the timer queue, be it called or queued. -/
theorem Inv.cancels (h : Inv s) {timerId : TimerId} (hc : s.Cancels timerId a)
    (hn : runs.Next s a t) : TimerQueue.runs.Next s.timers (.cancelInLoop timerId) t.timers := by
  have hhead : ∀ functor w, EventLoop.runs.Next s.world .runFunctor w →
      w.executed = s.world.executed ++ [functor] →
      (∃ thread rest inFunctor,
        s.world.phase = .calling (⟨thread, .cancelInLoop timerId⟩ :: rest) inFunctor) →
      functor.functor = .cancelInLoop timerId := by
    rintro functor w hw he ⟨thread, rest, inFunctor, hp⟩
    have hqueued := waiting_of_call h.world hw he
    rw [World.queued, hp] at hqueued
    rw [← (List.cons.inj hqueued).1]
  cases next_moves hn with
  | cancel hm hr hq =>
      rw [← hc.2]
      exact hq
  | postCancel => exact absurd hc.1 (Option.some_ne_none _)
  | callAdd hcall hf hw he hq =>
      rw [hhead _ _ hw he hc] at hf
      cases hf
  | callCancel hcall hf hw he hq =>
      rw [hhead _ _ hw he hc] at hf
      cases hf
      exact hq
  | callUser hcall hf hw he =>
      rw [hhead _ _ hw he hc] at hf
      cases hf
  | _ => exact absurd hc id

omit [DecidableEq T] in
/-- A cancel puts an end to a timer that does not wait and is not due. -/
theorem Inv.spent_of_cancel (h : Inv s) {r : Returned} {q : TimerQueue.State}
    (hr : r ∈ s.returned) (hdue : ¬ s.timers.InRest r.timer) (hwaits : ¬ s.Waits r.timer)
    (hq : TimerQueue.runs.Next s.timers (.cancelInLoop r.value) q) :
    TimerQueue.Spent q r.timer := by
  have hm := TimerQueue.next_moves h.timers hq
  obtain ⟨hover, hvalue⟩ := h.returned r hr
  have hadded : r.timer ∈ s.timers.added := hover.resolve_right hwaits
  rcases hvalue with heq | hdel
  · rw [heq] at hm
    exact TimerQueue.spent_of_cancel h.timers hadded hm hdue
  · -- a deleted timer stays deleted
    have hdel' := (hm.stays h.timers rfl).deleted _ hdel
    have hgone := (h.timers.moves hm).wf.memory.deleted_not_live _ hdel'
    refine ⟨?_, fun hl => absurd hl hgone, fun hl => absurd hl hgone⟩
    exact (h.timers.moves hm).wf.memory.deleted_le _ hdel'

/-- A timer that is spent stays so, and a spent timer is not started. -/
theorem neverStarts_of_spent (h : Inv s) {id : TimerId} (hs : TimerQueue.Spent s.timers id) :
    NeverStarts s id := by
  intro as t hrun
  obtain ⟨bs, hbs⟩ := timers_run hrun
  exact hs.neverStarts h.timers bs t.timers hbs

end TimerThreads

end Zing.Net
