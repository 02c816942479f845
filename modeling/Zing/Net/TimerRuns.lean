import Zing.Net.TimerOwnership

set_option autoImplicit false

/-! # Runs of the timer queue

`Moves s a t` says what a step does to a queue that is in order: one constructor for each
action, with `cancelInLoop` split into the timers the queue holds and the others.
`step_moves` shows that every step is such a move, so that no assertion fails, and what a
move preserves holds in every reachable state. The first such fact is `Inv`, of which
`timer_ownership` is a consequence.
-/

namespace Zing.Net.TimerQueue

open Zing.Lib

/-! ## The end of a batch

`reset` takes the entries of the batch one after the other, so what is left outside of the two
sets gets shorter by one each time.
-/

/-- `q'` comes from `q` by putting timers back at `now` or later and by deleting others; none
of the timers `ps` that were being cancelled is left. -/
structure Settled (q q' : TimerQueue) (now : Timestamp) (ps : List Addr) : Prop where
  later : q.memory.Later q'.memory
  timerfd_eq : q'.timerfd = q.timerfd
  calling_eq : q'.callingExpiredTimers = q.callingExpiredTimers
  canceling_eq : q'.cancelingTimers = q.cancelingTimers
  timers : ∀ e ∈ q'.timers, e ∈ q.timers ∨ now ≤ e.when
  canceled : ∀ id ∈ q.cancelingTimers, id.timer ∈ ps → ¬ q'.memory.Live id

/-- Entry by entry. -/
theorem Settled.trans {q₁ q₂ q₃ : TimerQueue} {now : Timestamp} {p : Addr} {ps : List Addr}
    (h : Settled q₁ q₂ now [p]) (h' : Settled q₂ q₃ now ps) :
    Settled q₁ q₃ now (p :: ps) where
  later := h.later.trans h'.later
  timerfd_eq := h'.timerfd_eq.trans h.timerfd_eq
  calling_eq := h'.calling_eq.trans h.calling_eq
  canceling_eq := h'.canceling_eq.trans h.canceling_eq
  timers := by
    intro e he
    rcases h'.timers e he with he | hle
    · exact h.timers e he
    · exact Or.inr hle
  canceled := by
    intro id hid hp hl
    rcases List.mem_cons.mp hp with heq | hp
    · exact h.canceled id hid (List.mem_singleton.mpr heq) (h'.later.live_before id hl)
    · exact h'.canceled id (by rw [h.canceling_eq]; exact hid) hp hl

variable {q : TimerQueue} {outside : List Addr}

/-- One entry of the batch is put back or deleted, so it no longer counts as outside. -/
theorem resetTimer_spec {it : Entry} (h : q.WF (it.timer :: outside)) (now : Timestamp) :
    ∃ q', q.resetTimer it now = .ok q' ∧ q'.WF outside ∧ Settled q q' now [it.timer] := by
  obtain ⟨t, ht⟩ := h.outside_live it.timer List.mem_cons_self
  unfold resetTimer
  rw [deref_eq ht]
  simp only [ok_bind]
  by_cases hc : t.repeats = true ∧ (⟨it.timer, t.sequence⟩ : TimerId) ∉ q.cancelingTimers
  · obtain ⟨hrep, hcancel⟩ := hc
    have hs : (t.restart now).sequence = t.sequence := Timer.restart_sequence t now
    have hwf := h.store List.mem_cons_self ht hs
    have ht' := Memory.store_live_self q.memory it.timer (t.restart now)
    rw [if_pos ⟨hrep, hcancel⟩, insert_eq hwf ht']
    refine ⟨_, rfl, hwf.put ht', ?_⟩
    refine
      { later := Memory.later_store ht hs, timerfd_eq := rfl, calling_eq := rfl,
        canceling_eq := rfl, timers := ?_, canceled := ?_ }
    · intro e he
      rcases OrdSet.mem_insert.mp he with rfl | he
      · exact Or.inr (Timer.le_restart_expiration hrep now)
      · exact Or.inl he
    · -- the timer at this address is not being cancelled
      rintro id hid hp hl
      obtain ⟨u, hu, hn⟩ := (Memory.live_store ht hs id).mp hl
      have haddr := List.mem_singleton.mp hp
      rw [haddr, ht, Option.some.injEq] at hu
      apply hcancel
      rw [hu, hn, ← haddr]
      exact hid
  · rw [if_neg hc, delete_eq ht]
    refine ⟨_, rfl, h.remove ht, ?_⟩
    exact
      { later := Memory.later_remove ht, timerfd_eq := rfl, calling_eq := rfl,
        canceling_eq := rfl, timers := fun e he => Or.inl he
        canceled := fun id _ hp hl =>
          ((Memory.live_remove t id).mp hl).2 (List.mem_singleton.mp hp) }

/-- By induction on the batch, each entry leaving the timers outside. -/
theorem resetTimers_spec {expired : List Entry}
    (h : q.WF (expired.map Entry.timer ++ outside)) (now : Timestamp) :
    ∃ q', q.resetTimers now expired = .ok q' ∧ q'.WF outside ∧
      Settled q q' now (expired.map Entry.timer) := by
  induction expired generalizing q with
  | nil =>
      refine ⟨q, rfl, h, ?_⟩
      exact
        { later := Memory.Later.refl _, timerfd_eq := rfl, calling_eq := rfl,
          canceling_eq := rfl, timers := fun e he => Or.inl he
          canceled := by intro id _ hp; cases hp }
  | cons it expired ih =>
      obtain ⟨q₁, he₁, hwf₁, hs₁⟩ := resetTimer_spec h now
      obtain ⟨q₂, he₂, hwf₂, hs₂⟩ := ih hwf₁
      refine ⟨q₂, ?_, hwf₂, hs₁.trans hs₂⟩
      unfold resetTimers
      rw [he₁, ok_bind]
      exact he₂

/-- The queue with the descriptor armed for the first timer, unless that is not `valid()`. -/
def rearmed (q : TimerQueue) (clock : Timestamp) : TimerQueue :=
  match q.timers.first with
  | none => q
  | some it =>
      if it.when.valid = true then { q with timerfd := resetTimerfd q.timerfd it.when clock }
      else q

/-- Arming the timerfd deletes and constructs nothing, -/
theorem rearmed_memory (q : TimerQueue) (clock : Timestamp) :
    (q.rearmed clock).memory = q.memory := by
  unfold rearmed
  split
  · rfl
  · split <;> rfl

/-- moves no timer, -/
theorem rearmed_timers (q : TimerQueue) (clock : Timestamp) :
    (q.rearmed clock).timers = q.timers := by
  unfold rearmed
  split
  · rfl
  · split <;> rfl

/-- and ends no batch. -/
theorem rearmed_calling (q : TimerQueue) (clock : Timestamp) :
    (q.rearmed clock).callingExpiredTimers = q.callingExpiredTimers := by
  unfold rearmed
  split
  · rfl
  · split <;> rfl

/-- So the queue stays well-formed. -/
theorem WF.rearmed (h : q.WF outside) (clock : Timestamp) : (q.rearmed clock).WF outside := by
  unfold TimerQueue.rearmed
  split
  · exact h
  · split
    · exact { h with }
    · exact h

/-- `reset` is the loop over the batch, and then the timerfd. -/
theorem reset_eq {q' : TimerQueue} {expired : List Entry} {now : Timestamp}
    (he : q.resetTimers now expired = .ok q') (hwf : q'.WF outside) (clock : Timestamp) :
    q.reset expired now clock = .ok (q'.rearmed clock) := by
  unfold reset rearmed
  rw [he, ok_bind]
  cases hf : q'.timers.first with
  | none => rfl
  | some it =>
      obtain ⟨t, ht, hw⟩ := hwf.key it (OrdSet.first_mem hf)
      simp only [deref_eq ht, ok_bind, hw]
      by_cases hv : it.when.valid = true
      · rw [if_pos hv, if_pos hv]
      · rw [if_neg hv, if_neg hv]

/-- It succeeds, and settles the whole batch. -/
theorem reset_spec {expired : List Entry} (h : q.WF (expired.map Entry.timer ++ outside))
    (now clock : Timestamp) :
    ∃ q', q.reset expired now clock = .ok (q'.rearmed clock) ∧ q'.WF outside ∧
      Settled q q' now (expired.map Entry.timer) := by
  obtain ⟨q', he, hwf, hs⟩ := resetTimers_spec h now
  exact ⟨q', reset_eq he hwf clock, hwf, hs⟩

/-! ## Steps -/

/-- The timers of the batch being run. -/
def State.batchTimers (s : State) : List Addr :=
  match s.batch with
  | none => []
  | some b => b.expired.map Entry.timer

/-- What holds in every state of a run. The queue is in order, apart from the timers that are on
their way into it and those of the batch being run; and a timer that was added is either deleted,
or live and no longer on its way. -/
structure Inv (s : State) : Prop where
  wf : s.queue.WF (s.pending ++ s.batchTimers)
  calling : s.queue.callingExpiredTimers = s.batch.isSome
  rest : ∀ b, s.batch = some b → b.rest <:+ b.expired
  added : ∀ id ∈ s.added, id ∈ s.queue.memory.deleted ∨
    s.queue.memory.Live id ∧ id.timer ∉ s.pending

/-- What the steps do. -/
inductive Moves (s : State) : Action → State → Prop
  | newTimer {p : Addr} {when : Timestamp} {interval : Interval}
      (hp : s.queue.memory.Available p) :
      Moves s (.newTimer p when interval)
        { s with
          queue := { s.queue with memory := s.queue.memory.new p when interval }
          pending := p :: s.pending }
  | add {timer : Addr} {now : Timestamp} {t : Timer} (hu : s.userCode = true)
      (hp : timer ∈ s.pending) (ht : s.queue.memory.live timer = some t) :
      Moves s (.addTimerInLoop timer now) (s.handed timer t (s.queue.added timer t now))
  | cancelActive {id : TimerId} {t : Timer} (hu : s.userCode = true)
      (hid : id ∈ s.queue.activeTimers) (ht : s.queue.memory.live id.timer = some t) :
      Moves s (.cancelInLoop id) { s with queue := s.queue.dropped id t }
  | cancelOther {id : TimerId} (hu : s.userCode = true) (hid : id ∉ s.queue.activeTimers) :
      Moves s (.cancelInLoop id) { s with queue := s.queue.noted id }
  | handleRead {now : Timestamp} {q : TimerQueue} (hb : s.batch = none)
      (hwf : q.WF (s.pending ++ (s.queue.expiredAt now).map Entry.timer))
      (hm : q.memory = s.queue.memory) (ht : q.timerfd = readTimerfd s.queue.timerfd)
      (he : ∀ e, e ∈ q.timers ↔ e ∈ s.queue.timers ∧ now < e.when) :
      Moves s (.handleRead now)
        { s with
          queue := { q with callingExpiredTimers := true, cancelingTimers := OrdSet.empty }
          batch := some
            { now := now, expired := s.queue.expiredAt now, rest := s.queue.expiredAt now,
              inCallback := false } }
  | runCallback {now : Timestamp} {expired rest : List Entry} {it : Entry} {inCallback : Bool}
      {t : Timer}
      (hb : s.batch = some
        { now := now, expired := expired, rest := it :: rest, inCallback := inCallback })
      (ht : s.queue.memory.live it.timer = some t) :
      Moves s .runCallback
        { s with
          batch := some { now := now, expired := expired, rest := rest, inCallback := true }
          started := s.started ++ [⟨it.timer, t.sequence⟩] }
  | finish {now clock : Timestamp} {expired : List Entry} {inCallback : Bool} {q : TimerQueue}
      (hb : s.batch = some
        { now := now, expired := expired, rest := [], inCallback := inCallback })
      (hwf : q.WF s.pending)
      (hs : Settled { s.queue with callingExpiredTimers := false } q now
        (expired.map Entry.timer)) :
      Moves s (.finish clock) { s with queue := q.rearmed clock, batch := none }

variable {s t : State} {a : Action}

/-- A pending timer, taken out of the others that are outside the sets. -/
theorem Inv.wf_pending (h : Inv s) {p : Addr} (hp : p ∈ s.pending) :
    s.queue.WF (p :: (s.pending.erase p ++ s.batchTimers)) :=
  h.wf.perm ((List.perm_cons_erase hp).append_right _)

/-- While a batch runs, its timers are outside of the two sets. -/
theorem Inv.wf_batch (h : Inv s) {b : Batch} (hb : s.batch = some b) :
    s.queue.WF (b.expired.map Entry.timer ++ s.pending) := by
  have hwf := h.wf
  rw [State.batchTimers, hb] at hwf
  exact hwf.perm List.perm_append_comm

/-- A step that is possible is a move: no assertion fails. -/
theorem step_moves (h : Inv s) {r : Except Assertion State} (hr : step s a = some r) :
    ∃ t, r = .ok t ∧ Moves s a t := by
  cases a with
  | newTimer p when interval =>
      by_cases hp : s.queue.memory.Available p
      · rw [step, if_pos hp, Option.some.injEq] at hr
        exact ⟨_, hr.symm, Moves.newTimer hp⟩
      · rw [step, if_neg hp] at hr
        cases hr
  | addTimerInLoop timer now =>
      by_cases hc : s.userCode = true ∧ timer ∈ s.pending
      · obtain ⟨hu, hp⟩ := hc
        have hwf := h.wf_pending hp
        obtain ⟨t, ht⟩ := hwf.outside_live timer List.mem_cons_self
        rw [step, if_pos ⟨hu, hp⟩, Option.some.injEq, deref_eq ht, ok_bind,
          addTimerInLoop_eq hwf ht now, ok_bind] at hr
        exact ⟨_, hr.symm, Moves.add hu hp ht⟩
      · rw [step, if_neg hc] at hr
        cases hr
  | cancelInLoop id =>
      by_cases hu : s.userCode = true
      · rw [step, if_pos hu, Option.some.injEq] at hr
        by_cases hid : id ∈ s.queue.activeTimers
        · obtain ⟨t, ht, -⟩ := h.wf.active_entry hid
          rw [cancelInLoop_active h.wf hid ht, ok_bind] at hr
          exact ⟨_, hr.symm, Moves.cancelActive hu hid ht⟩
        · rw [cancelInLoop_other h.wf hid, ok_bind] at hr
          exact ⟨_, hr.symm, Moves.cancelOther hu hid⟩
      · rw [step, if_neg hu] at hr
        cases hr
  | handleRead now =>
      cases hb : s.batch with
      | some b =>
          simp only [step, hb] at hr
          cases hr
      | none =>
          have hwf : WF { s.queue with timerfd := readTimerfd s.queue.timerfd } s.pending := by
            have hwf := h.wf
            rw [State.batchTimers, hb, List.append_nil] at hwf
            exact { hwf with }
          obtain ⟨q, hq, hwf', hm, ht, he⟩ := getExpired_spec hwf now
          simp only [step, hb, startExpired, hq, ok_bind, Option.some.injEq] at hr
          exact ⟨_, hr.symm, Moves.handleRead hb hwf' hm ht he⟩
  | runCallback =>
      cases hb : s.batch with
      | none =>
          simp only [step, hb] at hr
          cases hr
      | some b =>
          obtain ⟨now, expired, rest, inCallback⟩ := b
          cases rest with
          | nil =>
              simp only [step, hb] at hr
              cases hr
          | cons it rest =>
              have hmem : it ∈ expired := (h.rest _ hb).subset List.mem_cons_self
              obtain ⟨t, ht⟩ := (h.wf_batch hb).outside_live it.timer
                (List.mem_append_left _ (List.mem_map_of_mem hmem))
              simp only [step, hb, deref_eq ht, ok_bind, Option.some.injEq] at hr
              exact ⟨_, hr.symm, Moves.runCallback hb ht⟩
  | finish clock =>
      cases hb : s.batch with
      | none =>
          simp only [step, hb] at hr
          cases hr
      | some b =>
          obtain ⟨now, expired, rest, inCallback⟩ := b
          cases rest with
          | cons it rest =>
              simp only [step, hb] at hr
              cases hr
          | nil =>
              have hwf : WF { s.queue with callingExpiredTimers := false }
                  (expired.map Entry.timer ++ s.pending) := { h.wf_batch hb with }
              obtain ⟨q, hq, hwf', hs⟩ := reset_spec hwf now clock
              simp only [step, hb, hq, ok_bind, Option.some.injEq] at hr
              exact ⟨_, hr.symm, Moves.finish hb hwf' hs⟩

/-! ## The invariant -/

theorem inv_start : Inv start where
  wf := new_wf
  calling := rfl
  rest := by intro b hb; cases hb
  added := by intro id hid; cases hid

/-- Timers that were added stay accounted for while nothing is allocated or handed over. -/
theorem Inv.added_later (h : Inv s) {m : Memory} (hm : s.queue.memory.Later m) :
    ∀ id ∈ s.added, id ∈ m.deleted ∨ m.Live id ∧ id.timer ∉ s.pending := by
  intro id hid
  rcases h.added id hid with hdel | ⟨hl, hp⟩
  · exact Or.inl (hm.deleted_mono id hdel)
  · rcases hm.live_or_deleted id hl with hl | hdel
    · exact Or.inr ⟨hl, hp⟩
    · exact Or.inl hdel

/-- What holds of the queue is in the specifications of its functions. The timers on their way
into it and those of the batch go in and out of the list of those outside. -/
theorem Inv.moves (h : Inv s) (hm : Moves s a t) : Inv t := by
  cases hm with
  | @newTimer p when interval hp =>
      refine ⟨h.wf.newTimer when interval hp, h.calling, h.rest, ?_⟩
      intro id hid
      rcases h.added id hid with hdel | ⟨hl, hpend⟩
      · exact Or.inl hdel
      · refine Or.inr ⟨(Memory.live_new when interval hp.2.2 id).mpr (Or.inl hl), ?_⟩
        rw [List.mem_cons, not_or]
        refine ⟨?_, hpend⟩
        rintro rfl
        obtain ⟨u, hu, -⟩ := hl
        rw [hp.2.2] at hu
        cases hu
  | @add timer now tm hu hp ht =>
      have hwf := h.wf_pending hp
      refine ⟨hwf.added ht now, ?_, h.rest, ?_⟩
      · rw [State.handed, (added_flags now).1]
        exact h.calling
      · intro id hid
        show id ∈ (s.queue.added timer tm now).memory.deleted ∨
          (s.queue.added timer tm now).memory.Live id ∧ id.timer ∉ s.pending.erase timer
        rw [added_memory]
        rcases List.mem_append.mp hid with hid | hid
        · rcases h.added id hid with hdel | ⟨hl, hpend⟩
          · exact Or.inl hdel
          · exact Or.inr ⟨hl, fun hm => hpend (List.mem_of_mem_erase hm)⟩
        · rw [List.mem_singleton.mp hid]
          refine Or.inr ⟨⟨tm, ht, rfl⟩, fun hm => ?_⟩
          have hout := (List.nodup_cons.mp hwf.outside_nodup).1
          exact hout (List.mem_append_left _ hm)
  | @cancelActive id tm hu hid ht =>
      exact ⟨h.wf.dropped hid ht, h.calling, h.rest, h.added_later (Memory.later_remove ht)⟩
  | @cancelOther id hu hid =>
      refine ⟨h.wf.noted id, ?_, h.rest, ?_⟩
      · rw [(noted_timers _ _).2.2]
        exact h.calling
      · rw [noted_memory]
        exact h.added
  | @handleRead now q hb hwf hm ht he =>
      refine ⟨{ hwf with }, rfl, ?_, ?_⟩
      · intro b hb'
        cases hb'
        exact List.suffix_refl _
      · show ∀ id ∈ s.added, id ∈ q.memory.deleted ∨ q.memory.Live id ∧ id.timer ∉ s.pending
        rw [hm]
        exact h.added
  | @runCallback now expired rest it inCallback tm hb ht =>
      refine ⟨?_, ?_, ?_, h.added⟩
      · have hwf := h.wf
        rw [State.batchTimers, hb] at hwf
        exact hwf
      · rw [h.calling, hb]
        rfl
      · intro b hb'
        cases hb'
        exact (List.suffix_cons it rest).trans (h.rest _ hb)
  | @finish now clock expired inCallback q hb hwf hs =>
      refine ⟨?_, ?_, ?_, ?_⟩
      · show (q.rearmed clock).WF (s.pending ++ [])
        rw [List.append_nil]
        exact hwf.rearmed clock
      · rw [rearmed_calling, hs.calling_eq]
        rfl
      · intro b hb'
        cases hb'
      · rw [rearmed_memory]
        exact h.added_later hs.later

theorem inv_step {P : State → Action → Prop} :
    ∀ s a t, Inv s → P s a → runs.Next s a t → Inv t := by
  intro s a t h _ hn
  obtain ⟨u, hu, hm⟩ := step_moves h hn
  cases hu
  exact h.moves hm

/-- No condition on the run is needed. -/
theorem reachable_inv {P : State → Action → Prop} (h : runs.Reachable P s) : Inv s :=
  h.invariant (by rintro _ rfl; exact inv_start) inv_step

/-- A step taken in a reachable state is a move. -/
theorem next_moves (h : Inv s) (hn : runs.Next s a t) : Moves s a t := by
  obtain ⟨u, hu, hm⟩ := step_moves h hn
  cases hu
  exact hm

/-! ## Ownership -/

/-- The timer is in both sets. -/
def State.Waiting (s : State) (id : TimerId) : Prop :=
  s.queue.memory.Live id ∧ id ∈ s.queue.activeTimers ∧ ∃ e ∈ s.queue.timers, e.timer = id.timer

/-- The timer belongs to the batch being run. -/
def State.InBatch (s : State) (id : TimerId) : Prop :=
  s.queue.memory.Live id ∧ id.timer ∈ s.batchTimers

/-- The timer has been deleted. -/
def State.Freed (s : State) (id : TimerId) : Prop := id ∈ s.queue.memory.deleted

/-- A timer that was added is in one place. -/
theorem Inv.one_place (h : Inv s) {id : TimerId} (hid : id ∈ s.added) :
    (s.Waiting id ∧ ¬ s.InBatch id ∧ ¬ s.Freed id) ∨
      (¬ s.Waiting id ∧ s.InBatch id ∧ ¬ s.Freed id) ∨
      (¬ s.Waiting id ∧ ¬ s.InBatch id ∧ s.Freed id) := by
  rcases h.added id hid with hdel | ⟨hl, hpend⟩
  · have hnot := h.wf.memory.deleted_not_live id hdel
    exact Or.inr (Or.inr ⟨fun hw => hnot hw.1, fun hb => hnot hb.1, hdel⟩)
  · have hfreed : ¬ s.Freed id := fun hdel => h.wf.memory.deleted_not_live id hdel hl
    have hapart : s.Waiting id → ¬ s.InBatch id := by
      rintro ⟨-, -, e, he, heq⟩ ⟨-, hb⟩
      exact h.wf.outside_notMem id.timer (List.mem_append_right _ hb) e he heq
    have hlive := hl
    obtain ⟨t, ht, -⟩ := hlive
    rcases h.wf.owned id.timer t ht with hout | hin
    · have hb : s.InBatch id := by
        refine ⟨hl, ?_⟩
        rcases List.mem_append.mp hout with hp | hb
        · exact absurd hp hpend
        · exact hb
      exact Or.inr (Or.inl ⟨fun hw => hapart hw hb, hb, hfreed⟩)
    · have hw : s.Waiting id := ⟨hl, (h.wf.active id).mpr ⟨hl, hin⟩, hin⟩
      exact Or.inl ⟨hw, hapart hw, hfreed⟩

/-- In every run of a timer queue the two sets hold the same timers, each under its current
expiration; every timer that was added is in both sets, in the batch, or deleted, and only one
of these; no timer is deleted twice; and no assertion fails, nor is a deleted timer used. -/
theorem timer_ownership (s : State) (h : runs.Reachable System.always s) :
    s.queue.timers.size = s.queue.activeTimers.size ∧
    (∀ p, (∃ e ∈ s.queue.timers, e.timer = p) ↔ ∃ id ∈ s.queue.activeTimers, id.timer = p) ∧
    (∀ e ∈ s.queue.timers, ∃ t, s.queue.memory.live e.timer = some t ∧ t.expiration = e.when) ∧
    (∀ id ∈ s.queue.activeTimers, s.queue.memory.Live id) ∧
    (∀ id ∈ s.added,
      (s.Waiting id ∧ ¬ s.InBatch id ∧ ¬ s.Freed id) ∨
      (¬ s.Waiting id ∧ s.InBatch id ∧ ¬ s.Freed id) ∨
      (¬ s.Waiting id ∧ ¬ s.InBatch id ∧ s.Freed id)) ∧
    s.queue.memory.deleted.Nodup ∧
    ∀ a e, ¬ runs.Fails s a e := by
  have hinv := reachable_inv h
  refine ⟨hinv.wf.size, ?_, hinv.wf.key, fun id hid => ((hinv.wf.active id).mp hid).1,
    fun id hid => hinv.one_place hid, hinv.wf.memory.deleted_nodup, ?_⟩
  · intro p
    constructor
    · rintro ⟨e, he, rfl⟩
      obtain ⟨t, ht, -⟩ := hinv.wf.key e he
      exact ⟨⟨e.timer, t.sequence⟩, (hinv.wf.active _).mpr ⟨⟨t, ht, rfl⟩, e, he, rfl⟩, rfl⟩
    · rintro ⟨id, hid, rfl⟩
      exact ((hinv.wf.active id).mp hid).2
  · intro a e hf
    obtain ⟨t, ht, -⟩ := step_moves hinv hf
    cases ht

/-- Two timers that expire together: the callback of the first, which repeats, cancels the
second. -/
def sample : List Action :=
  [.newTimer 8 100 { positive := true, micros := 50, nonneg := by decide },
    .addTimerInLoop 8 10,
    .newTimer 16 100 { positive := false, micros := 0, nonneg := by decide },
    .addTimerInLoop 16 10, .handleRead 200, .runCallback, .cancelInLoop ⟨16, 2⟩, .runCallback,
    .finish 201]

theorem timer_ownership_sample : ∃ s, runs.Run System.always start sample s ∧
    s.queue.timers.elems = [⟨250, 8⟩] ∧ s.Freed ⟨16, 2⟩ ∧ ∀ a e, ¬ runs.Fails s a e := by
  have hrun := System.run_of_exec (rfl : runs.exec start sample = some (.ok _))
  refine ⟨_, hrun, rfl, List.mem_singleton_self _, ?_⟩
  exact (timer_ownership _ ⟨start, sample, rfl, hrun⟩).2.2.2.2.2.2

end Zing.Net.TimerQueue
