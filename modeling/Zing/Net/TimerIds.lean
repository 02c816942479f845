import Zing.Net.TimerHandOver

set_option autoImplicit false

/-! # The ids that addTimer returns

`addTimer` reads the sequence number of its timer after the timer has been handed over. On
another thread the loop may come in between: it adds the timer, runs it, and `reset` deletes
it if it does not repeat. The read then finds a freed object, or a new timer at the same
address, whose id is returned instead. `faithful_ids_iff` shows that these deletions are the
only way to a wrong id.
-/

namespace Zing.Net

open Zing.Lib

namespace TimerQueue

/-! ## What reset deletes

At the end of a batch `reset` goes through its entries: a timer that repeats, and was not
cancelled meanwhile, is put back, and any other is deleted.
-/

/-- `reset` puts the timer back. -/
def Keeps (q : TimerQueue) (id : TimerId) : Prop :=
  id ∉ q.cancelingTimers ∧ ∃ t, q.memory.live id.timer = some t ∧ t.repeats = true

/-- The timer is in the batch being run, and `reset` deletes it. -/
def State.Dropped (s : State) (id : TimerId) : Prop :=
  s.InBatch id ∧ ¬ s.queue.Keeps id

variable {q q' : TimerQueue} {outside : List Addr} {s t : State}

/-- `resetTimer` deletes the timer of its entry unless it is kept, and no other timer. -/
theorem resetTimer_live {it : Entry} {now : Timestamp} (h : q.WF (it.timer :: outside))
    (hr : q.resetTimer it now = .ok q') (id : TimerId) :
    (q'.memory.Live id ↔ q.memory.Live id ∧ (id.timer = it.timer → q.Keeps id)) ∧
      (id.timer ≠ it.timer → (q'.Keeps id ↔ q.Keeps id)) := by
  obtain ⟨timer, ht⟩ := h.outside_live it.timer List.mem_cons_self
  have hlive : id.timer = it.timer → (q.memory.Live id ↔ id = ⟨it.timer, timer.sequence⟩) := by
    intro heq
    constructor
    · intro hl
      exact hl.unique ⟨timer, ht, rfl⟩ heq
    · rintro rfl
      exact ⟨timer, ht, rfl⟩
  unfold resetTimer at hr
  rw [deref_eq ht] at hr
  simp only [ok_bind] at hr
  split at hr
  · case isTrue hkeep =>
      obtain ⟨hrep, hcancel⟩ := hkeep
      have hs : (timer.restart now).sequence = timer.sequence := Timer.restart_sequence timer now
      have hwf := h.store List.mem_cons_self ht hs
      have ht' := Memory.store_live_self q.memory it.timer (timer.restart now)
      rw [insert_eq hwf ht'] at hr
      cases hr
      constructor
      · show (q.memory.store it.timer (timer.restart now)).Live id ↔ _
        rw [Memory.live_store ht hs]
        refine ⟨fun hl => ⟨hl, fun heq => ?_⟩, And.left⟩
        rw [(hlive heq).mp hl]
        exact ⟨hcancel, timer, ht, hrep⟩
      · intro hne
        show id ∉ q.cancelingTimers ∧ _ ↔ _
        rw [Keeps, ← Memory.store_live_of_ne q.memory (timer.restart now) hne]
        rfl
  · case isFalse hdrop =>
      rw [delete_eq ht] at hr
      cases hr
      constructor
      · show (q.memory.remove it.timer timer).Live id ↔ _
        rw [Memory.live_remove]
        refine and_congr_right fun hl => ⟨fun hne heq => absurd heq hne, fun hkeep heq => ?_⟩
        obtain ⟨hcancel, u, hu, hrep⟩ := hkeep heq
        rw [heq, ht, Option.some.injEq] at hu
        rw [(hlive heq).mp hl] at hcancel
        exact hdrop ⟨hu ▸ hrep, hcancel⟩
      · intro hne
        show id ∉ q.cancelingTimers ∧ _ ↔ _
        rw [Keeps, ← Memory.remove_live_of_ne q.memory timer hne]

/-- So `reset` deletes the timers of the batch that are not kept. -/
theorem resetTimers_live {expired : List Entry} {now : Timestamp}
    (h : q.WF (expired.map Entry.timer ++ outside))
    (hr : q.resetTimers now expired = .ok q') (id : TimerId) :
    q'.memory.Live id ↔
      q.memory.Live id ∧ (id.timer ∈ expired.map Entry.timer → q.Keeps id) := by
  induction expired generalizing q with
  | nil =>
      cases hr
      simp
  | cons it expired ih =>
      obtain ⟨q₁, he, hwf, -⟩ := resetTimer_spec h now
      unfold resetTimers at hr
      rw [he, ok_bind] at hr
      obtain ⟨hlive, hkeeps⟩ := resetTimer_live h he id
      have hnodup := (List.nodup_cons.mp h.outside_nodup).1
      rw [ih hwf hr, hlive, List.map_cons, List.mem_cons]
      by_cases heq : id.timer = it.timer
      · -- a timer is in the batch once
        have hnot : id.timer ∉ expired.map Entry.timer := by
          rw [heq]
          exact fun hin => hnodup (List.mem_append_left _ hin)
        constructor
        · rintro ⟨⟨hl, hkeep⟩, -⟩
          exact ⟨hl, fun _ => hkeep heq⟩
        · rintro ⟨hl, hkeep⟩
          exact ⟨⟨hl, fun _ => hkeep (Or.inl heq)⟩, fun hin => absurd hin hnot⟩
      · rw [hkeeps heq]
        simp [heq]

/-- What the end of `handleRead` comes to. -/
theorem finish_next (h : Inv s) {clock : Timestamp} (hn : runs.Next s (.finish clock) t) :
    ∃ now expired inCallback q, s.batch = some
        { now := now, expired := expired, rest := [], inCallback := inCallback } ∧
      WF { s.queue with callingExpiredTimers := false }
        (expired.map Entry.timer ++ s.pending) ∧
      { s.queue with callingExpiredTimers := false }.resetTimers now expired = .ok q ∧
      t = { s with queue := q.rearmed clock, batch := none } := by
  have hs : step s (.finish clock) = some (.ok t) := hn
  cases hb : s.batch with
  | none => simp only [step, hb] at hs; cases hs
  | some b =>
      obtain ⟨now, expired, rest, inCallback⟩ := b
      cases rest with
      | cons it rest => simp only [step, hb] at hs; cases hs
      | nil =>
          simp only [step, hb, Option.some.injEq] at hs
          obtain ⟨q, hq, ht⟩ := bind_eq_ok.mp hs
          cases ht
          have hwf : WF { s.queue with callingExpiredTimers := false }
              (expired.map Entry.timer ++ s.pending) := { h.wf_batch hb with }
          obtain ⟨q₁, he, hwf₁, -⟩ := resetTimers_spec hwf now
          rw [reset_eq he hwf₁ clock] at hq
          cases hq
          exact ⟨now, expired, inCallback, q₁, rfl, hwf, he, rfl⟩

/-- At the end of a batch exactly the timers that `reset` does not put back are deleted. -/
theorem finish_live (h : Inv s) {clock : Timestamp} (hn : runs.Next s (.finish clock) t)
    (id : TimerId) : t.queue.memory.Live id ↔ s.queue.memory.Live id ∧ ¬ s.Dropped id := by
  obtain ⟨now, expired, inCallback, q, hb, hwf, he, rfl⟩ := finish_next h hn
  rw [rearmed_memory, resetTimers_live hwf he id]
  have hbatch : s.batchTimers = expired.map Entry.timer := by
    rw [State.batchTimers, hb]
  refine and_congr_right fun hl => ?_
  rw [State.Dropped, State.InBatch, hbatch, not_and, not_not]
  exact ⟨fun hkeep hin => hkeep hin.2, fun hkeep hin => hkeep ⟨hl, hin⟩⟩

end TimerQueue

namespace TimerThreads

open EventLoop (World Queued)

variable {T : Type}

/-! ## The pairs that timers are constructed with

An address is given out again, a sequence number is not, so the pair of the two names a timer for
the whole run. This much holds whether or not a timer is deleted before `addTimer` has read it.
-/

/-- A call of `addTimer` has constructed its timer, and not returned. -/
def State.InCall (s : State T) (thread : Option T) (id : TimerId) : Prop :=
  s.calls thread = .constructed id ∨ s.calls thread = .handed id

/-- Each timer belongs to one call: the pairs it was constructed with are all different, a call
that has not returned has one of them to itself, and a returned call has given its own away for
good. Only what was returned is cancelled. -/
structure Owned (s : State T) : Prop where
  inv : Inv s
  created_le : ∀ id ∈ s.created, id.sequence ≤ s.timers.queue.memory.numCreated
  created_nodup : s.created.Nodup
  called : ∀ thread id, s.InCall thread id → id ∈ s.created
  apart : ∀ thread thread' id, s.InCall thread id → s.InCall thread' id → thread = thread'
  returned : ∀ r ∈ s.returned, r.timer ∈ s.created ∧ ∀ thread, ¬ s.InCall thread r.timer
  returned_nodup : (s.returned.map Returned.timer).Nodup
  cancels : ∀ q ∈ s.world.queued, ∀ id, q.functor = .cancelInLoop id →
    id ∈ s.returned.map Returned.value

/-- No timer has been constructed yet. -/
theorem owned_start : Owned (start : State T) where
  inv := inv_start
  created_le := by intro id hid; cases hid
  created_nodup := List.nodup_nil
  called := by rintro thread id (hc | hc) <;> cases hc
  apart := by rintro thread thread' id (hc | hc) <;> cases hc
  returned := by intro r hr; cases hr
  returned_nodup := List.nodup_nil
  cancels := by intro q hq; cases hq

variable [DecidableEq T] {s t : State T} {a : Action T}

omit [DecidableEq T] in
/-- A step with no call of `addTimer` beginning or returning. -/
theorem Owned.same (h : Owned s) (hinv : Inv t)
    (hcall : ∀ thread id, t.InCall thread id → s.InCall thread id)
    (hcreated : t.created = s.created) (hreturned : t.returned = s.returned)
    (hnum : t.timers.queue.memory.numCreated = s.timers.queue.memory.numCreated)
    (hcancels : ∀ q ∈ t.world.queued, ∀ id, q.functor = .cancelInLoop id →
      id ∈ s.returned.map Returned.value) : Owned t := by
  constructor
  · exact hinv
  · rw [hcreated, hnum]
    exact h.created_le
  · rw [hcreated]
    exact h.created_nodup
  · intro thread id hc
    rw [hcreated]
    exact h.called thread id (hcall thread id hc)
  · intro thread thread' id hc hc'
    exact h.apart thread thread' id (hcall _ _ hc) (hcall _ _ hc')
  · intro r hr
    rw [hreturned] at hr
    rw [hcreated]
    refine ⟨(h.returned r hr).1, fun thread hc => ?_⟩
    exact (h.returned r hr).2 thread (hcall _ _ hc)
  · rw [hreturned]
    exact h.returned_nodup
  · rw [hreturned]
    exact hcancels

/-- The calls of the threads after one of them has gone on. -/
theorem inCall_goes {thread thread' : Option T} {c : Call} {id : TimerId}
    (h : (s.goes thread c).InCall thread' id) :
    thread' = thread ∧ (c = .constructed id ∨ c = .handed id) ∨
      thread' ≠ thread ∧ s.InCall thread' id := by
  rcases h with h | h
  · rcases goes_calls.mp h with ⟨heq, hc⟩ | ⟨hne, hc⟩
    · exact Or.inl ⟨heq, Or.inl hc⟩
    · exact Or.inr ⟨hne, Or.inl hc⟩
  · rcases goes_calls.mp h with ⟨heq, hc⟩ | ⟨hne, hc⟩
    · exact Or.inl ⟨heq, Or.inr hc⟩
    · exact Or.inr ⟨hne, Or.inr hc⟩

/-- Handing a timer over is a step within its call. -/
theorem inCall_handed {thread thread' : Option T} {id id' : TimerId}
    (hc : s.calls thread = .constructed id) (h : (s.goes thread (.handed id)).InCall thread' id') :
    s.InCall thread' id' := by
  rcases inCall_goes h with ⟨rfl, heq | heq⟩ | ⟨-, hold⟩
  · cases heq
  · cases heq
    exact Or.inl hc
  · exact hold

/-- The constructor takes a sequence number above all that were given out, so the new pair is no
one's yet. -/
theorem Owned.newTimer (h : Owned s) {thread : Option T} {p : Addr} {when : Timestamp}
    {interval : Interval} {q : TimerQueue.State}
    (hq : TimerQueue.Moves s.timers (.newTimer p when interval) q) :
    Owned { s.goes thread (.constructed ⟨p, s.timers.queue.memory.numCreated + 1⟩) with
      timers := q
      created := s.created ++ [⟨p, s.timers.queue.memory.numCreated + 1⟩] } := by
  obtain ⟨-, -, -, hmemory⟩ := hq.of_new
  have hnum : q.queue.memory.numCreated = s.timers.queue.memory.numCreated + 1 := by
    rw [hmemory]
    rfl
  have hfresh : (⟨p, s.timers.queue.memory.numCreated + 1⟩ : TimerId) ∉ s.created := by
    intro hin
    exact absurd (h.created_le _ hin) (Nat.not_succ_le_self _)
  have hcall : ∀ thread' id, State.InCall { s.goes thread
      (.constructed ⟨p, s.timers.queue.memory.numCreated + 1⟩) with
        timers := q
        created := s.created ++ [⟨p, s.timers.queue.memory.numCreated + 1⟩] } thread' id →
      thread' = thread ∧ id = ⟨p, s.timers.queue.memory.numCreated + 1⟩ ∨
        s.InCall thread' id := by
    intro thread' id hc
    rcases inCall_goes hc with ⟨heq, hid | hid⟩ | ⟨-, hold⟩
    · cases hid
      exact Or.inl ⟨heq, rfl⟩
    · cases hid
    · exact Or.inr hold
  refine ⟨h.inv.newTimer hq, ?_, ?_, ?_, ?_, ?_, h.returned_nodup, h.cancels⟩
  · intro id hid
    show id.sequence ≤ q.queue.memory.numCreated
    rw [hnum]
    rcases List.mem_append.mp hid with hid | hid
    · exact (h.created_le id hid).trans (Nat.le_succ _)
    · rw [List.mem_singleton.mp hid]
  · show (s.created ++ [_]).Nodup
    rw [List.nodup_append]
    refine ⟨h.created_nodup, List.nodup_singleton _, ?_⟩
    rintro id hid id' hid' rfl
    rw [List.mem_singleton.mp hid'] at hid
    exact hfresh hid
  · intro thread' id hc
    rcases hcall thread' id hc with ⟨-, rfl⟩ | hold
    · exact List.mem_append_right _ (List.mem_singleton_self _)
    · exact List.mem_append_left _ (h.called thread' id hold)
  · intro thread₁ thread₂ id hc₁ hc₂
    rcases hcall thread₁ id hc₁ with ⟨hth₁, rfl⟩ | hold₁
    · rcases hcall thread₂ _ hc₂ with ⟨hth₂, -⟩ | hold₂
      · exact hth₁.trans hth₂.symm
      · exact absurd (h.called _ _ hold₂) hfresh
    · rcases hcall thread₂ _ hc₂ with ⟨-, rfl⟩ | hold₂
      · exact absurd (h.called _ _ hold₁) hfresh
      · exact h.apart _ _ _ hold₁ hold₂
  · intro r hr
    obtain ⟨hcreated, hnot⟩ := h.returned r hr
    refine ⟨List.mem_append_left _ hcreated, fun thread' hc => ?_⟩
    rcases hcall thread' _ hc with ⟨-, heq⟩ | hold
    · rw [heq] at hcreated
      exact hfresh hcreated
    · exact hnot thread' hold

/-- The call is over, and its timer is among those that were returned. What value was returned for
it is another matter. -/
theorem Owned.returnId (h : Owned s) {thread : Option T} {timer : TimerId} {u : Timer}
    (hc : s.calls thread = .handed timer)
    (hu : s.timers.queue.memory.live timer.timer = some u) :
    Owned { s.goes thread .idle with
      returned := s.returned ++ [{ timer := timer, value := ⟨timer.timer, u.sequence⟩ }] } := by
  have hcall : ∀ thread' id, (s.goes thread .idle).InCall thread' id →
      thread' ≠ thread ∧ s.InCall thread' id := by
    intro thread' id hc'
    rcases inCall_goes hc' with ⟨-, hid | hid⟩ | hold
    · cases hid
    · cases hid
    · exact hold
  refine ⟨h.inv.returnId hc hu, h.created_le, h.created_nodup, ?_, ?_, ?_, ?_, ?_⟩
  · exact fun thread' id hc' => h.called thread' id (hcall thread' id hc').2
  · exact fun _ _ id hc₁ hc₂ => h.apart _ _ id (hcall _ _ hc₁).2 (hcall _ _ hc₂).2
  · intro r hr
    rcases List.mem_append.mp hr with hr | hr
    · refine ⟨(h.returned r hr).1, fun thread' hc' => ?_⟩
      exact (h.returned r hr).2 thread' (hcall _ _ hc').2
    · rw [List.mem_singleton.mp hr]
      refine ⟨h.called thread timer (Or.inr hc), fun thread' hc' => ?_⟩
      obtain ⟨hne, hold⟩ := hcall _ _ hc'
      exact hne (h.apart _ _ _ hold (Or.inr hc))
  · show ((s.returned ++ [_]).map Returned.timer).Nodup
    rw [List.map_append, List.nodup_append]
    refine ⟨h.returned_nodup, List.nodup_singleton _, ?_⟩
    rintro id hid id' hid' rfl
    obtain ⟨r, hr, rfl⟩ := List.mem_map.mp hid
    have heq : r.timer = timer := List.mem_singleton.mp hid'
    refine (h.returned r hr).2 thread (Or.inr ?_)
    rw [heq]
    exact hc
  · intro q hq id hid
    show id ∈ (s.returned ++ [_]).map Returned.value
    rw [List.map_append]
    exact List.mem_append_left _ (h.cancels q hq id hid)

omit [DecidableEq T] in
/-- Functors that are queued may cancel what was returned. -/
theorem Owned.cancels_append (h : Owned s) {w : World T Functor}
    {more : List (Queued T Functor)} (hw : w.queued = s.world.queued ++ more)
    (hmore : ∀ q ∈ more, ∀ id, q.functor = .cancelInLoop id →
      id ∈ s.returned.map Returned.value) :
    ∀ q ∈ w.queued, ∀ id, q.functor = .cancelInLoop id →
      id ∈ s.returned.map Returned.value := by
  intro q hq
  rw [hw] at hq
  rcases List.mem_append.mp hq with hq | hq
  · exact h.cancels q hq
  · exact hmore q hq

/-- Running a functor queues no cancel of an id that was not returned. -/
theorem Owned.cancels_call (h : Owned s) {functor : Queued T Functor} {w : World T Functor}
    (hw : EventLoop.runs.Next s.world .runFunctor w)
    (he : w.executed = s.world.executed ++ [functor]) :
    ∀ q ∈ w.queued, ∀ id, q.functor = .cancelInLoop id →
      id ∈ s.returned.map Returned.value := by
  intro q hq
  apply h.cancels q
  rw [waiting_of_call h.inv.world hw he]
  exact List.mem_cons_of_mem functor hq

/-- Every step keeps it, also one that deletes a timer too early. -/
theorem Owned.moves (h : Owned s) (hm : Moves s a t) : Owned t := by
  have hinv := h.inv.moves hm
  have hsame : ∀ thread id, s.InCall thread id → s.InCall thread id := fun _ _ hc => hc
  cases hm with
  | newTimer hm hq => exact h.newTimer (TimerQueue.next_moves h.inv.timers hq)
  | add hc hq =>
      obtain ⟨-, -, -, -, hmemory⟩ := (TimerQueue.next_moves h.inv.timers hq).of_add
      refine h.same hinv (fun _ _ hc' => inCall_handed hc hc') rfl rfl ?_ h.cancels
      exact congrArg Memory.numCreated hmemory
  | post hc hw =>
      refine h.same hinv (fun _ _ hc' => inCall_handed hc hc') rfl rfl rfl ?_
      apply h.cancels_append (waiting_of_push h.inv.world hw)
      intro q hq id hid
      rw [List.mem_singleton.mp hq] at hid
      cases hid
  | returnId hc ht => exact h.returnId hc ht
  | cancel hm hr hq | handleRead hc hq | runCallback hc hq | finish hc hq =>
      have hstays := (TimerQueue.next_moves h.inv.timers hq).stays h.inv.timers rfl
      exact h.same hinv hsame rfl rfl hstays.numCreated h.cancels
  | postCancel hm hr hw =>
      refine h.same hinv hsame rfl rfl rfl ?_
      apply h.cancels_append (waiting_of_push h.inv.world hw)
      intro q hq id hid
      rw [List.mem_singleton.mp hq] at hid
      cases hid
      exact hr
  | callAdd hc hf hw he hq =>
      obtain ⟨-, -, -, -, hmemory⟩ := (TimerQueue.next_moves h.inv.timers hq).of_add
      refine h.same hinv hsame rfl rfl ?_ (h.cancels_call hw he)
      exact congrArg Memory.numCreated hmemory
  | callCancel hc hf hw he hq =>
      have hstays := (TimerQueue.next_moves h.inv.timers hq).stays h.inv.timers rfl
      exact h.same hinv hsame rfl rfl hstays.numCreated (h.cancels_call hw he)
  | callUser hc hf hw he => exact h.same hinv hsame rfl rfl rfl (h.cancels_call hw he)
  | inLoop ha hw =>
      obtain ⟨more, hmore, huser⟩ := waiting_of_allows h.inv.world ha hw
      refine h.same hinv hsame rfl rfl rfl ?_
      apply h.cancels_append hmore
      intro q hq id hid
      rw [huser q hq] at hid
      cases hid

/-! ## Faithful ids -/

/-- A call of `addTimer` that has still to read finds its timer; those that have returned gave
the pair that their timer was constructed with; and no two timers share one. -/
structure Faithful (s : State T) : Prop where
  unread : ∀ thread id, s.calls thread = .handed id → s.Live id
  value : ∀ r ∈ s.returned, r.value = r.timer
  returned_nodup : (s.returned.map Returned.value).Nodup
  created_nodup : s.created.Nodup

/-- `reset` deletes no timer whose sequence number is still to be read by `addTimer`. -/
def ReadFirst (s : State T) : Action T → Prop
  | .finish _ => ∀ thread id, s.calls thread = .handed id → ¬ s.timers.Dropped id
  | _ => True

omit [DecidableEq T] in
/-- What `Faithful` says beyond `Owned` is that the timers are there to be read, and were. -/
theorem faithful_of_owned (h : Owned s) (hunread : ∀ thread id, s.calls thread = .handed id →
    s.Live id) (hvalue : ∀ r ∈ s.returned, r.value = r.timer) : Faithful s := by
  refine ⟨hunread, hvalue, ?_, h.created_nodup⟩
  rw [List.map_congr_left hvalue]
  exact h.returned_nodup

omit [DecidableEq T] in
/-- A cancel deletes no timer that `addTimer` has not returned the id of. -/
theorem Owned.cancel_live (h : Owned s) (hvalue : ∀ r ∈ s.returned, r.value = r.timer)
    {thread : Option T} {id timerId : TimerId} {q : TimerQueue.State}
    (hc : s.calls thread = .handed id) (hl : s.Live id)
    (hr : timerId ∈ s.returned.map Returned.value)
    (hq : TimerQueue.runs.Next s.timers (.cancelInLoop timerId) q) :
    q.queue.memory.Live id := by
  refine (TimerQueue.next_moves h.inv.timers hq).cancel_live h.inv.timers hl ?_
  rintro rfl
  obtain ⟨r, hr, heq⟩ := List.mem_map.mp hr
  refine (h.returned r hr).2 thread (Or.inr ?_)
  rw [← hvalue r hr, heq]
  exact hc

/-- Only the end of a batch can delete a timer that is still to be read. -/
theorem Faithful.next_iff (h : Faithful s) (ho : Owned s) (hn : runs.Next s a t) :
    Faithful t ↔ ReadFirst s a := by
  have hm := next_moves hn
  have hot := ho.moves hm
  have hiff : (∀ r ∈ t.returned, r.value = r.timer) →
      ((∀ thread id, t.calls thread = .handed id → t.Live id) ↔ ReadFirst s a) →
      (Faithful t ↔ ReadFirst s a) := by
    intro hvalue hunread
    rw [← hunread]
    exact ⟨Faithful.unread, fun hu => faithful_of_owned hot hu hvalue⟩
  cases hm with
  | newTimer hm hq =>
      obtain ⟨hfree, -, -, hmemory⟩ := (TimerQueue.next_moves ho.inv.timers hq).of_new
      refine hiff h.value ⟨fun _ => trivial, fun _ thread id hc => ?_⟩
      rcases goes_calls.mp hc with ⟨-, hid⟩ | ⟨-, hc⟩
      · cases hid
      · show Memory.Live _ id
        rw [hmemory]
        exact (Memory.live_new _ _ hfree.2.2 id).mpr (Or.inl (h.unread thread id hc))
  | add hc hq =>
      obtain ⟨-, -, -, -, hmemory⟩ := (TimerQueue.next_moves ho.inv.timers hq).of_add
      refine hiff h.value ⟨fun _ => trivial, fun _ thread id hc' => ?_⟩
      show Memory.Live _ id
      rw [hmemory]
      rcases goes_calls.mp hc' with ⟨-, hid⟩ | ⟨-, hc'⟩
      · cases hid
        exact (ho.inv.constructed _ _ hc).1
      · exact h.unread thread id hc'
  | post hc hw =>
      refine hiff h.value ⟨fun _ => trivial, fun _ thread id hc' => ?_⟩
      rcases goes_calls.mp hc' with ⟨-, hid⟩ | ⟨-, hc'⟩
      · cases hid
        exact (ho.inv.constructed _ _ hc).1
      · exact h.unread thread id hc'
  | @returnId thread timer u hc ht =>
      refine hiff ?_ ⟨fun _ => trivial, fun _ thread' id hc' => ?_⟩
      · intro r hr
        rcases List.mem_append.mp hr with hr | hr
        · exact h.value r hr
        · rw [List.mem_singleton.mp hr]
          exact Memory.Live.unique (m := s.timers.queue.memory) ⟨u, ht, rfl⟩
            (h.unread thread timer hc) rfl
      · rcases goes_calls.mp hc' with ⟨-, hid⟩ | ⟨-, hc'⟩
        · cases hid
        · exact h.unread thread' id hc'
  | cancel hm hr hq =>
      refine hiff h.value ⟨fun _ => trivial, fun _ thread id hc => ?_⟩
      exact ho.cancel_live h.value hc (h.unread thread id hc) hr hq
  | postCancel | callUser | inLoop =>
      exact hiff h.value ⟨fun _ => trivial, fun _ => h.unread⟩
  | callAdd hc hf hw he hq =>
      obtain ⟨-, -, -, -, hmemory⟩ := (TimerQueue.next_moves ho.inv.timers hq).of_add
      refine hiff h.value ⟨fun _ => trivial, fun _ thread id hc' => ?_⟩
      show Memory.Live _ id
      rw [hmemory]
      exact h.unread thread id hc'
  | @callCancel functor timerId _ w q hc hf hw he hq =>
      have hr : timerId ∈ s.returned.map Returned.value := by
        refine ho.cancels functor ?_ timerId hf
        rw [waiting_of_call ho.inv.world hw he]
        exact List.mem_cons_self
      refine hiff h.value ⟨fun _ => trivial, fun _ thread id hc' => ?_⟩
      exact ho.cancel_live h.value hc' (h.unread thread id hc') hr hq
  | handleRead hc hq =>
      refine hiff h.value ⟨fun _ => trivial, fun _ thread id hc' => ?_⟩
      have hl := h.unread thread id hc'
      cases TimerQueue.next_moves ho.inv.timers hq with
      | handleRead hb hwf hmemory ht he =>
          show Memory.Live _ id
          simp only [hmemory]
          exact hl
  | runCallback hc hq =>
      refine hiff h.value ⟨fun _ => trivial, fun _ thread id hc' => ?_⟩
      have hl := h.unread thread id hc'
      cases TimerQueue.next_moves ho.inv.timers hq with
      | runCallback hb ht => exact hl
  | finish hc hq =>
      refine hiff h.value ⟨fun hu thread id hc' => ?_, fun hread thread id hc' => ?_⟩
      · exact ((TimerQueue.finish_live ho.inv.timers hq id).mp (hu thread id hc')).2
      · exact (TimerQueue.finish_live ho.inv.timers hq id).mpr
          ⟨h.unread thread id hc', hread thread id hc'⟩

/-- With the deletions left out, both hold in every run. -/
theorem reachable_faithful (h : runs.Reachable ReadFirst s) : Owned s ∧ Faithful s := by
  apply h.invariant
  · rintro _ rfl
    refine ⟨owned_start, faithful_of_owned owned_start ?_ ?_⟩
    · intro thread id hc
      cases hc
    · intro r hr
      cases hr
  · rintro u b v ⟨ho, hf⟩ hb hn
    exact ⟨ho.moves (next_moves hn), (hf.next_iff ho hn).mpr hb⟩

/-- In every run in which `reset` deletes no timer before `addTimer` has read its sequence
number, each read finds its timer, the id returned is the pair that the timer was constructed
with, and no two timers share one. A step from such a run to a state without this is one in
which `reset` does delete such a timer. -/
theorem faithful_ids_iff (s : State T) (h : runs.Reachable ReadFirst s) :
    Faithful s ∧ (∀ thread e, ¬ runs.Fails s (.returnId thread) e) ∧
      ∀ a t, runs.Next s a t → (Faithful t ↔ ReadFirst s a) := by
  obtain ⟨ho, hf⟩ := reachable_faithful h
  refine ⟨hf, ?_, fun a t hn => hf.next_iff ho hn⟩
  intro thread e hfails
  have hs : step s (.returnId thread) = some (.error e) := hfails
  cases hc : s.calls thread with
  | handed timer =>
      obtain ⟨u, hu, -⟩ := hf.unread thread timer hc
      simp only [step, hc, TimerQueue.deref_eq hu, nested_ok, ok_bind] at hs
      obtain ⟨-, hs⟩ := of_guard hs
      cases hs
  | _ => simp only [step, hc] at hs; cases hs

/-- Another thread adds a timer that is already due. -/
def dueSample : List (Action Unit) :=
  firstEvents ++
    [.newTimer (some ()) 8 5 { positive := false, micros := 0, nonneg := Interval.nonneg_zero },
      .runInLoop (some ()) 0, .inLoop (.wakeup ())]

/-- The id is returned before the timer has run. -/
theorem faithful_ids_sample : ∃ s : State Unit, runs.Reachable ReadFirst s ∧
    s.timers.started = [⟨8, 1⟩] ∧ ¬ s.Live ⟨8, 1⟩ ∧ Faithful s := by
  have hrun := (System.run_of_exec (rfl : runs.exec start (dueSample ++ [.returnId (some ())] ++
    nextEvents ++ [.handleRead 200, .runCallback]) = some (.ok _))).of_actions
      (Q := ReadFirst) (by simp [dueSample, firstEvents, nextEvents, ReadFirst])
  have hend := hrun.snoc (a := .finish 200) (by rintro (_ | _) id hc <;> cases hc) (by rfl)
  have hreach : runs.Reachable ReadFirst _ := ⟨start, _, rfl, hend⟩
  refine ⟨_, hreach, rfl, ?_, (faithful_ids_iff _ hreach).1⟩
  rintro ⟨t, ht, -⟩
  cases ht

/-- The timer runs and is deleted first. The address is used again, and the thread returns the
id of the new timer. -/
theorem wrong_id_returned : ¬ ∀ s : State Unit, runs.Reachable System.always s → Faithful s := by
  intro hall
  have hrun := System.run_of_exec (rfl : runs.exec start (dueSample ++ nextEvents ++
    [.handleRead 200, .runCallback, .finish 200,
      .newTimer none 8 300 { positive := false, micros := 0, nonneg := by decide },
      .runInLoop none 200, .returnId none, .returnId (some ())]) = some (.ok _))
  have hf := hall _ ⟨start, _, rfl, hrun⟩
  have hvalue := hf.value { timer := ⟨8, 1⟩, value := ⟨8, 2⟩ }
    (List.mem_cons_of_mem _ List.mem_cons_self)
  exact absurd hvalue (by decide)

end TimerThreads

end Zing.Net
