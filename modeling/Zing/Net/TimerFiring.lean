import Zing.Net.TimerIds

set_option autoImplicit false

/-! # Which timers a call of handleRead fires

`handleRead` cuts the timers that are due out of the queue, runs them in order, and puts those
back that repeat and were not cancelled. `Calls s now as t` is one call up to its last step: it
begins in `s`, and the actions `as` are the callbacks with what they add and cancel. `During` is
what holds all along: the batch is what was due in `s`, the timers of the batch stay as they
are, and `cancelingTimers_` holds those of them that were cancelled.
-/

namespace Zing.Net.TimerQueue

open Zing.Lib

/-- The timer is in the queue, and `tm` is its object. -/
structure State.Queued (s : State) (id : TimerId) (tm : Timer) : Prop where
  live : s.queue.memory.live id.timer = some tm
  sequence : tm.sequence = id.sequence
  entry : (⟨tm.expiration, id.timer⟩ : Entry) ∈ s.queue.timers
  active : id ∈ s.queue.activeTimers

/-- The id of the timer that an entry is for. -/
def State.idAt (s : State) (e : Entry) : TimerId :=
  ⟨e.timer, ((s.queue.memory.live e.timer).map Timer.sequence).getD 0⟩

/-- A call of `handleRead` that began in `s` has come to `t`, and not to its end. -/
def Calls (s : State) (now : Timestamp) (as : List Action) (t : State) : Prop :=
  ∃ u, runs.Next s (.handleRead now) u ∧
    runs.Run (fun _ a => ∀ clock, a ≠ .finish clock) u as t

variable {q q' : TimerQueue} {outside : List Addr} {s t u : State} {a : Action} {id : TimerId}
  {tm : Timer} {now : Timestamp} {as : List Action}

/-! ## Timers in the queue -/

/-- The entry alone says that the timer is in the queue. -/
theorem WF.active_of_entry (h : q.WF outside) (hl : q.memory.live id.timer = some tm)
    (hs : tm.sequence = id.sequence) (he : (⟨tm.expiration, id.timer⟩ : Entry) ∈ q.timers) :
    id ∈ q.activeTimers :=
  (h.active id).mpr ⟨⟨tm, hl, hs⟩, _, he, rfl⟩

/-- The id is read off the object. -/
theorem idAt_eq {e : Entry} (ht : s.queue.memory.live e.timer = some tm) :
    s.idAt e = ⟨e.timer, tm.sequence⟩ := by
  rw [State.idAt, ht]
  rfl

/-- Every entry is one of a timer in the queue. -/
theorem Inv.queued (h : Inv s) {e : Entry} (he : e ∈ s.queue.timers) :
    ∃ tm, s.Queued (s.idAt e) tm ∧ tm.expiration = e.when := by
  obtain ⟨tm, ht, hw⟩ := h.wf.key e he
  have hentry : (⟨tm.expiration, e.timer⟩ : Entry) ∈ s.queue.timers := by
    rw [hw]
    exact he
  rw [idAt_eq ht]
  have hact : (⟨e.timer, tm.sequence⟩ : TimerId) ∈ s.queue.activeTimers :=
    h.wf.active_of_entry ht rfl hentry
  exact ⟨tm, ⟨ht, rfl, hentry, hact⟩, hw⟩

theorem State.Queued.unique {tm' : Timer} (hq : s.Queued id tm) (hq' : s.Queued id tm') :
    tm = tm' :=
  Option.some.inj (hq.live.symm.trans hq'.live)

/-- The batch and the queue have no timer in common. -/
theorem Inv.batch_apart (h : Inv s) {p : Addr} (hp : p ∈ s.batchTimers) :
    ∀ e ∈ s.queue.timers, e.timer ≠ p :=
  h.wf.outside_notMem p (List.mem_append_right _ hp)

/-- No id in `activeTimers_` is one of the batch, so a cancel does not find it. -/
theorem Inv.batch_not_active (h : Inv s) (hp : id.timer ∈ s.batchTimers) :
    id ∉ s.queue.activeTimers := by
  intro hact
  obtain ⟨-, e, he, heq⟩ := (h.wf.active id).mp hact
  exact h.batch_apart hp e he heq

/-- A timer in the queue stays there as it is, unless it is cancelled or `handleRead` goes on. -/
theorem State.Queued.moves (hq : s.Queued id tm) (h : Inv s) (hm : Moves s a t)
    (hread : ∀ now, a ≠ .handleRead now) (hfinish : ∀ clock, a ≠ .finish clock)
    (hcancel : a ≠ .cancelInLoop id) : t.Queued id tm := by
  have hkept : t.queue.memory.live id.timer = some tm ∧
      (⟨tm.expiration, id.timer⟩ : Entry) ∈ t.queue.timers := by
    cases hm with
    | @newTimer p when interval hp =>
        -- the address of a live timer is not given out again
        have hne : id.timer ≠ p := by
          rintro rfl
          have hnone := hp.2.2
          rw [hq.live] at hnone
          cases hnone
        exact ⟨(Memory.new_live_of_ne _ when interval hne).trans hq.live, hq.entry⟩
    | @add timer clock tm' hu hp ht =>
        rw [State.handed, added_memory, added_timers]
        exact ⟨hq.live, OrdSet.mem_insert.mpr (Or.inr hq.entry)⟩
    | @cancelActive id' tm' hu hact ht =>
        obtain ⟨tm'', ht'', hs'', -⟩ := h.wf.active_entry hact
        -- another timer is cancelled, and two live timers have two addresses
        have hne : id.timer ≠ id'.timer := by
          intro heq
          have hlive : s.queue.memory.Live id := ⟨tm, hq.live, hq.sequence⟩
          exact hcancel (by rw [hlive.unique ⟨tm'', ht'', hs''⟩ heq])
        refine ⟨(Memory.remove_live_of_ne _ tm' hne).trans hq.live, ?_⟩
        exact OrdSet.mem_erase.mpr ⟨hq.entry, fun heq => hne (congrArg Entry.timer heq)⟩
    | @cancelOther id' hu hact =>
        rw [noted_memory, (noted_timers _ _).1]
        exact ⟨hq.live, hq.entry⟩
    | runCallback hb ht => exact ⟨hq.live, hq.entry⟩
    | handleRead => exact absurd rfl (hread _)
    | finish => exact absurd rfl (hfinish _)
  exact ⟨hkept.1, hq.sequence, hkept.2,
    (h.moves hm).wf.active_of_entry hkept.1 hq.sequence hkept.2⟩

/-! ## The batch -/

/-- The timers of the batch stay as they are until `reset`. -/
theorem Moves.batch_live (h : Inv s) (hm : Moves s a t) (hfinish : ∀ clock, a ≠ .finish clock)
    {p : Addr} (hp : p ∈ s.batchTimers) : t.queue.memory.live p = s.queue.memory.live p := by
  cases hm with
  | @newTimer p' when interval hp' =>
      obtain ⟨tm, ht⟩ := h.wf.outside_live p (List.mem_append_right _ hp)
      apply Memory.new_live_of_ne
      rintro rfl
      have hnone := hp'.2.2
      rw [ht] at hnone
      cases hnone
  | add hu hpend ht => rw [State.handed, added_memory]
  | @cancelActive id tm hu hact ht =>
      apply Memory.remove_live_of_ne
      rintro rfl
      exact h.batch_not_active hp hact
  | cancelOther hu hact => rw [noted_memory]
  | handleRead hb hwf hmem ht he => rw [hmem]
  | runCallback hb ht => rfl
  | finish => exact absurd rfl (hfinish _)

/-- A cancel of a timer of the batch is noted, and nothing else is noted of the batch. -/
theorem Moves.batch_canceling (h : Inv s) (hm : Moves s a t)
    (hfinish : ∀ clock, a ≠ .finish clock) (hp : id.timer ∈ s.batchTimers) :
    id ∈ t.queue.cancelingTimers ↔ id ∈ s.queue.cancelingTimers ∨ a = .cancelInLoop id := by
  have hsome : s.batch.isSome = true := by
    cases hb : s.batch with
    | none => simp [State.batchTimers, hb] at hp
    | some b => rfl
  cases hm with
  | newTimer hp' => simp
  | add hu hpend ht =>
      rw [State.handed, (added_flags _).2]
      simp
  | @cancelActive id' tm hu hact ht =>
      have hne : id' ≠ id := by
        rintro rfl
        exact h.batch_not_active hp hact
      show id ∈ s.queue.cancelingTimers ↔ _
      simp [hne]
  | @cancelOther id' hu hact =>
      have hcalling : s.queue.callingExpiredTimers = true := h.calling.trans hsome
      show id ∈ (s.queue.noted id').cancelingTimers ↔ _
      rw [noted, if_pos hcalling, OrdSet.mem_insert, Action.cancelInLoop.injEq, eq_comm]
      exact or_comm
  | handleRead hb hwf hmem ht he => rw [hb] at hsome; cases hsome
  | runCallback hb ht => simp
  | finish => exact absurd rfl (hfinish _)

/-- What holds in the course of a call that began in `s`. The front of the batch has been started,
in order (`batch`); its timers are as they were in `s` (`live`); of these, `cancelingTimers_` has
those that were cancelled in the call (`canceling`); and none of them was added (`added`). -/
structure During (s : State) (now : Timestamp) (as : List Action) (t : State) : Prop where
  inv : Inv t
  batch : ∃ done rest inCallback, t.batch = some
      { now := now, expired := s.queue.expiredAt now, rest := rest, inCallback := inCallback } ∧
    s.queue.expiredAt now = done ++ rest ∧ t.started = s.started ++ done.map s.idAt
  live : ∀ e ∈ s.queue.expiredAt now,
    t.queue.memory.live e.timer = s.queue.memory.live e.timer
  canceling : ∀ id : TimerId, id.timer ∈ (s.queue.expiredAt now).map Entry.timer →
    (id ∈ t.queue.cancelingTimers ↔ .cancelInLoop id ∈ as)
  added : ∃ new, t.added = s.added ++ new ∧
    ∀ id ∈ new, id.timer ∉ (s.queue.expiredAt now).map Entry.timer

theorem During.batchTimers (h : During s now as t) :
    t.batchTimers = (s.queue.expiredAt now).map Entry.timer := by
  obtain ⟨_, _, _, hb, -⟩ := h.batch
  rw [State.batchTimers, hb]

/-- `getExpired` has made the batch, nothing has been called, and `cancelingTimers_` is empty. -/
theorem during_handleRead (h : Inv s) (hn : runs.Next s (.handleRead now) t) :
    During s now [] t := by
  have hm := next_moves h hn
  have hinv := h.moves hm
  cases hm with
  | handleRead hb hwf hmem ht he =>
      refine ⟨hinv, ⟨[], _, false, rfl, rfl, (List.append_nil _).symm⟩, ?_, ?_, ?_⟩
      · intro e _
        rw [hmem]
      · intro id _
        exact ⟨fun hin => absurd hin (OrdSet.notMem_empty id), fun hin => nomatch hin⟩
      · exact ⟨[], (List.append_nil _).symm, fun _ hid => nomatch hid⟩

/-- By cases on the step: a callback is the next of the batch, and everything else leaves the
batch alone. What is added gets an address that no timer of the batch has. -/
theorem During.snoc (h : During s now as t) (hn : runs.Next t a u)
    (hfinish : ∀ clock, a ≠ .finish clock) : During s now (as ++ [a]) u := by
  have hm := next_moves h.inv hn
  have hbatch := h.batchTimers
  obtain ⟨done, rest, inCallback, hb, hsplit, hstarted⟩ := h.batch
  refine ⟨h.inv.moves hm, ?_, ?_, ?_, ?_⟩
  · cases hm with
    | @runCallback now' expired' rest' it inCallback' tm hb' ht =>
        rw [hb] at hb'
        cases hb'
        have hmem : it ∈ s.queue.expiredAt now := by
          rw [hsplit]
          exact List.mem_append_right _ List.mem_cons_self
        rw [h.live it hmem] at ht
        -- the entry moves from the rest to what is done
        refine ⟨done ++ [it], rest', true, rfl, ?_, ?_⟩
        · rw [hsplit, List.append_assoc, List.singleton_append]
        · rw [hstarted, List.append_assoc, List.map_append, List.map_singleton, idAt_eq ht]
    | handleRead hb' => rw [hb] at hb'; cases hb'
    | finish => exact absurd rfl (hfinish _)
    | newTimer hp => exact ⟨done, rest, inCallback, hb, hsplit, hstarted⟩
    | add hu hp ht => exact ⟨done, rest, inCallback, hb, hsplit, hstarted⟩
    | cancelActive hu hid ht => exact ⟨done, rest, inCallback, hb, hsplit, hstarted⟩
    | cancelOther hu hid => exact ⟨done, rest, inCallback, hb, hsplit, hstarted⟩
  · intro e he
    rw [hm.batch_live h.inv hfinish (hbatch ▸ List.mem_map_of_mem he)]
    exact h.live e he
  · intro id hid
    rw [hm.batch_canceling h.inv hfinish (hbatch ▸ hid), h.canceling id hid, List.mem_append,
      List.mem_singleton, eq_comm (a := a)]
  · obtain ⟨new, hadded, hnew⟩ := h.added
    cases hm with
    | @add timer clock tm hu hp ht =>
        refine ⟨new ++ [⟨timer, tm.sequence⟩], ?_, ?_⟩
        · rw [State.handed, hadded, List.append_assoc]
        · intro id hid
          rcases List.mem_append.mp hid with hid | hid
          · exact hnew id hid
          -- what is handed over was on its way, and the batch is not
          · rw [List.mem_singleton.mp hid, ← hbatch]
            exact fun hin => (List.nodup_append.mp h.inv.wf.outside_nodup).2.2 _ hp _ hin rfl
    | finish => exact absurd rfl (hfinish _)
    | handleRead => exact ⟨new, hadded, hnew⟩
    | runCallback => exact ⟨new, hadded, hnew⟩
    | newTimer => exact ⟨new, hadded, hnew⟩
    | cancelActive => exact ⟨new, hadded, hnew⟩
    | cancelOther => exact ⟨new, hadded, hnew⟩

/-- By induction on the callbacks and what they do. -/
theorem Calls.during (h : Inv s) (hc : Calls s now as t) : During s now as t := by
  obtain ⟨u, hn, hrun⟩ := hc
  induction hrun with
  | nil => exact during_handleRead h hn
  | snoc _ hp hn' ih => exact ih.snoc hn' hp

/-! ## What reset makes of the batch

`reset` goes through the batch once. A timer that repeats and was not cancelled meanwhile is
restarted and inserted, and every other one is deleted. -/

/-- What becomes of a timer `tm` of the batch. -/
def Settles (q q' : TimerQueue) (now : Timestamp) (p : Addr) (tm : Timer) : Prop :=
  if tm.repeats = true ∧ (⟨p, tm.sequence⟩ : TimerId) ∉ q.cancelingTimers then
    q'.memory.live p = some (tm.restart now) ∧
      (⟨(tm.restart now).expiration, p⟩ : Entry) ∈ q'.timers
  else (⟨p, tm.sequence⟩ : TimerId) ∈ q'.memory.deleted

/-- One timer of the batch is restarted or deleted, and the others are left as they are. -/
theorem resetTimer_settles {it : Entry} (h : q.WF (it.timer :: outside))
    (hr : q.resetTimer it now = .ok q') :
    (∀ p, p ≠ it.timer → q'.memory.live p = q.memory.live p) ∧
      (∀ e ∈ q.timers, e ∈ q'.timers) ∧
      ∀ tm, q.memory.live it.timer = some tm → Settles q q' now it.timer tm := by
  obtain ⟨tm, ht⟩ := h.outside_live it.timer List.mem_cons_self
  rw [resetTimer, deref_eq ht] at hr
  simp only [ok_bind] at hr
  split at hr
  · case isTrue hkeep =>
      have hs : (tm.restart now).sequence = tm.sequence := Timer.restart_sequence tm now
      have hwf := h.store List.mem_cons_self ht hs
      have ht' := Memory.store_live_self q.memory it.timer (tm.restart now)
      rw [insert_eq hwf ht'] at hr
      cases hr
      refine ⟨fun p hne => Memory.store_live_of_ne _ _ hne, ?_, ?_⟩
      · exact fun e he => OrdSet.mem_insert.mpr (Or.inr he)
      · intro tm' htm'
        rw [ht, Option.some.injEq] at htm'
        subst htm'
        rw [Settles, if_pos hkeep]
        exact ⟨ht', OrdSet.mem_insert.mpr (Or.inl rfl)⟩
  · case isFalse hdrop =>
      rw [delete_eq ht] at hr
      cases hr
      refine ⟨fun p hne => Memory.remove_live_of_ne _ _ hne, fun e he => he, ?_⟩
      intro tm' htm'
      rw [ht, Option.some.injEq] at htm'
      subst htm'
      rw [Settles, if_neg hdrop]
      exact List.mem_append_right _ (List.mem_singleton_self _)

/-- By induction on the batch. What was done to a timer is not undone by the rest, which has other
timers. -/
theorem resetTimers_settles {expired : List Entry}
    (h : q.WF (expired.map Entry.timer ++ outside))
    (hr : q.resetTimers now expired = .ok q') :
    (∀ p, p ∉ expired.map Entry.timer → q'.memory.live p = q.memory.live p) ∧
      (∀ e ∈ q.timers, e ∈ q'.timers) ∧
      ∀ p ∈ expired.map Entry.timer, ∀ tm, q.memory.live p = some tm →
        Settles q q' now p tm := by
  induction expired generalizing q with
  | nil =>
      cases hr
      exact ⟨fun _ _ => rfl, fun _ he => he, fun _ hp => nomatch hp⟩
  | cons it expired ih =>
      obtain ⟨q₁, he, hwf, hsettled⟩ := resetTimer_spec h now
      rw [resetTimers, he, ok_bind] at hr
      obtain ⟨hlive, htimers, hfirst⟩ := resetTimer_settles h he
      obtain ⟨hlive', htimers', hrest⟩ := ih hwf hr
      obtain ⟨hnotMem, -⟩ := List.nodup_cons.mp h.outside_nodup
      have hout : it.timer ∉ expired.map Entry.timer :=
        fun hin => hnotMem (List.mem_append_left _ hin)
      -- what is deleted stays deleted in the rest of the batch
      have hlater : ∀ id ∈ q₁.memory.deleted, id ∈ q'.memory.deleted := by
        obtain ⟨q₂, he₂, -, hsettled₂⟩ := resetTimers_spec hwf now
        rw [hr] at he₂
        cases he₂
        exact hsettled₂.later.deleted_mono
      refine ⟨?_, fun e he => htimers' e (htimers e he), ?_⟩
      · intro p hp
        rw [List.map_cons, List.mem_cons, not_or] at hp
        rw [hlive' p hp.2, hlive p hp.1]
      · intro p hp tm ht
        rcases List.mem_cons.mp hp with rfl | hp
        · -- the rest of the batch leaves the first timer as it is
          have hone := hfirst tm ht
          rw [Settles] at hone ⊢
          split at hone
          · case isTrue hkeep =>
              rw [if_pos hkeep, hlive' _ hout]
              exact ⟨hone.1, htimers' _ hone.2⟩
          · case isFalse hdrop =>
              rw [if_neg hdrop]
              exact hlater _ hone
        · have hne : p ≠ it.timer := by
            rintro rfl
            exact hout hp
          have hone := hrest p hp tm ((hlive p hne).trans ht)
          rwa [Settles, hsettled.canceling_eq] at hone

/-! ## The end of a call -/

/-- At the end of a call every timer of the batch has been started, and `reset` has put back or
deleted it; which of the two, its repetition and the cancels of the call decide. -/
theorem During.finish (hd : During s now as t) {clock : Timestamp} {v : State}
    (hn : runs.Next t (.finish clock) v) : ∃ q : TimerQueue, v.queue = q.rearmed clock ∧
      t.started = s.started ++ (s.queue.expiredAt now).map s.idAt ∧
      (∀ p, p ∉ (s.queue.expiredAt now).map Entry.timer →
        q.memory.live p = t.queue.memory.live p) ∧
      (∀ e ∈ t.queue.timers, e ∈ q.timers) ∧
      ∀ id tm, id.timer ∈ (s.queue.expiredAt now).map Entry.timer → s.Queued id tm →
        (tm.repeats = true → .cancelInLoop id ∉ as →
          q.memory.live id.timer = some (tm.restart now) ∧
            (⟨(tm.restart now).expiration, id.timer⟩ : Entry) ∈ q.timers) ∧
        (tm.repeats = false ∨ .cancelInLoop id ∈ as → id ∈ q.memory.deleted) := by
  obtain ⟨done, rest, inCallback, hb, hsplit, hstarted⟩ := hd.batch
  obtain ⟨now', expired, inCallback', q, hb', hwf, hr, rfl⟩ := finish_next hd.inv hn
  rw [hb] at hb'
  cases hb'
  obtain ⟨hlive, htimers, hsettles⟩ := resetTimers_settles hwf hr
  rw [List.append_nil] at hsplit
  refine ⟨q, rfl, by rw [hstarted, hsplit], hlive, htimers, ?_⟩
  intro id tm hid hq
  obtain ⟨e, he, heq⟩ := List.mem_map.mp hid
  have htm : t.queue.memory.live id.timer = some tm := by
    rw [← heq, hd.live e he, heq]
    exact hq.live
  have hid' : (⟨id.timer, tm.sequence⟩ : TimerId) = id := by
    rw [hq.sequence]
  have hone := hsettles _ hid tm htm
  rw [Settles, hid'] at hone
  -- the timers noted as cancelled are those of the cancels of this call
  have hcanceling : id ∈ t.queue.cancelingTimers ↔ .cancelInLoop id ∈ as := hd.canceling id hid
  constructor
  · intro hrep hnot
    rwa [if_pos ⟨hrep, mt hcanceling.mp hnot⟩] at hone
  · intro hdrop
    rw [if_neg] at hone
    · exact hone
    · rintro ⟨hrep, hnot⟩
      rcases hdrop with hfalse | hcancel
      · rw [hrep] at hfalse
        cases hfalse
      · exact hnot (hcanceling.mpr hcancel)

/-- In a call `handleRead` is not entered again, so that what is queued stays. -/
theorem During.queued (hd : During s now as t) (hq : t.Queued id tm) {bs : List Action}
    (hrun : runs.Run (fun _ a => ∀ clock, a ≠ .finish clock) t bs u)
    (hcancel : .cancelInLoop id ∉ bs) : During s now (as ++ bs) u ∧ u.Queued id tm := by
  induction hrun with
  | nil =>
      rw [List.append_nil]
      exact ⟨hd, hq⟩
  | @snoc w u bs a _ hfinish hn ih =>
      rw [List.mem_append, List.mem_singleton, not_or] at hcancel
      obtain ⟨hdw, hqw⟩ := ih hcancel.1
      have hm := next_moves hdw.inv hn
      have hread : ∀ now', a ≠ .handleRead now' := by
        rintro now' rfl
        obtain ⟨_, _, _, hb, -⟩ := hdw.batch
        cases hm with
        | handleRead hb' =>
            rw [hb] at hb'
            cases hb'
      rw [← List.append_assoc]
      exact ⟨hdw.snoc hn hfinish, hqw.moves hdw.inv hm hread hfinish (Ne.symm hcancel.2)⟩

/-- `reset` leaves what is in the queue. -/
theorem During.finish_queued (hd : During s now as t) (hq : t.Queued id tm)
    {clock : Timestamp} {v : State} (hn : runs.Next t (.finish clock) v) : v.Queued id tm := by
  have hinv := hd.inv.moves (next_moves hd.inv hn)
  obtain ⟨q, hv, -, hlive, htimers, -⟩ := hd.finish hn
  have hout : id.timer ∉ (s.queue.expiredAt now).map Entry.timer := by
    rw [← hd.batchTimers]
    exact fun hin => hd.inv.batch_apart hin _ hq.entry rfl
  have hlive' : v.queue.memory.live id.timer = some tm := by
    rw [hv, rearmed_memory, hlive _ hout]
    exact hq.live
  have hentry : (⟨tm.expiration, id.timer⟩ : Entry) ∈ v.queue.timers := by
    rw [hv, rearmed_timers]
    exact htimers _ hq.entry
  exact ⟨hlive', hq.sequence, hentry, hinv.wf.active_of_entry hlive' hq.sequence hentry⟩

/-- A timer that is not due is left in the queue. -/
theorem State.Queued.handleRead (hq : s.Queued id tm) (h : Inv s)
    (hn : runs.Next s (.handleRead now) t) (hlt : now < tm.expiration) : t.Queued id tm := by
  have hm := next_moves h hn
  have hinv := h.moves hm
  cases hm with
  | handleRead hb hwf hmem ht he =>
      have hlive := (congrArg (fun m => m.live id.timer) hmem).trans hq.live
      have hentry := (he _).mpr ⟨hq.entry, hlt⟩
      exact ⟨hlive, hq.sequence, hentry, hwf.active_of_entry hlive hq.sequence hentry⟩

/-! ## Timers that fire once -/

/-- A timer that does not repeat has started at most once, and is then in the batch, with its
turn behind it, or gone. -/
structure Once (s : State) (id : TimerId) : Prop where
  sequence_le : id.sequence ≤ s.queue.memory.numCreated
  count : s.started.count id ≤ 1
  oneShot : ∀ tm, s.queue.memory.live id.timer = some tm → tm.sequence = id.sequence →
    tm.repeats = false
  turn : s.queue.memory.Live id → id ∈ s.started → ∃ b, s.batch = some b ∧
    id.timer ∈ b.expired.map Entry.timer ∧ id.timer ∉ b.rest.map Entry.timer

/-- What was started has been created. -/
theorem reachable_started (h : runs.Reachable System.always s) :
    ∀ id ∈ s.started, id.sequence ≤ s.queue.memory.numCreated := by
  have hall : Inv s ∧ ∀ id ∈ s.started, id.sequence ≤ s.queue.memory.numCreated := by
    refine h.invariant (I := fun u => Inv u ∧
      ∀ id ∈ u.started, id.sequence ≤ u.queue.memory.numCreated) ?_ ?_
    · rintro _ rfl
      exact ⟨inv_start, fun _ hid => nomatch hid⟩
    · rintro u a v ⟨hinv, hu⟩ - hn
      have hm := next_moves hinv hn
      refine ⟨hinv.moves hm, ?_⟩
      cases hm with
      | newTimer hp => exact fun id hid => (hu id hid).trans (Nat.le_succ _)
      | add hup hp ht =>
          rw [State.handed, added_memory]
          exact hu
      | cancelActive hup hid ht => exact hu
      | cancelOther hup hid =>
          rw [noted_memory]
          exact hu
      | handleRead hb hwf hmem ht he =>
          rw [hmem]
          exact hu
      | @runCallback now expired rest it inCallback tm hb ht =>
          intro id hid
          rcases List.mem_append.mp hid with hid | hid
          · exact hu id hid
          · rw [List.mem_singleton.mp hid]
            exact hinv.wf.memory.sequence_le _ tm ht
      | finish hb hwf hs =>
          rw [rearmed_memory, hs.later.numCreated_eq]
          exact hu
  exact hall.2

/-- A new id has not been started, as every id that was started is older. -/
theorem once_new (h : runs.Reachable System.always s) {p : Addr} {when : Timestamp}
    {interval : Interval} (hi : interval.positive = false)
    (hn : runs.Next s (.newTimer p when interval) t) :
    Once t ⟨p, s.queue.memory.numCreated + 1⟩ := by
  have hfresh : (⟨p, s.queue.memory.numCreated + 1⟩ : TimerId) ∉ s.started := by
    intro hin
    exact absurd (reachable_started h _ hin) (Nat.not_succ_le_self _)
  have hm := next_moves (reachable_inv h) hn
  cases hm with
  | newTimer hp =>
      refine ⟨le_refl _, ?_, ?_, fun _ hin => absurd hin hfresh⟩
      · rw [List.count_eq_zero_of_not_mem hfresh]
        exact Nat.zero_le 1
      · intro tm ht _
        rw [Memory.new_live_self, Option.some.injEq] at ht
        rw [← ht]
        exact hi

/-- A step that starts no timer, and leaves this one and the batch as they are. -/
theorem Once.kept (ho : Once s id)
    (hcreated : s.queue.memory.numCreated ≤ t.queue.memory.numCreated)
    (hlive : ∀ tm, t.queue.memory.live id.timer = some tm → tm.sequence = id.sequence →
      s.queue.memory.live id.timer = some tm)
    (hstarted : t.started = s.started) (hbatch : ∀ b, s.batch = some b → t.batch = some b) :
    Once t id := by
  refine ⟨ho.sequence_le.trans hcreated, ?_, ?_, ?_⟩
  · rw [hstarted]
    exact ho.count
  · exact fun tm ht hs => ho.oneShot tm (hlive tm ht hs) hs
  · rintro ⟨tm, ht, hs⟩ hin
    rw [hstarted] at hin
    obtain ⟨b, hb, hturn⟩ := ho.turn ⟨tm, hlive tm ht hs, hs⟩ hin
    exact ⟨b, hbatch b hb, hturn⟩

/-- An address that is used again gets a timer with another sequence number. -/
theorem Once.live_new (ho : Once s id) {p : Addr} {when : Timestamp} {interval : Interval}
    {tm : Timer} (ht : (s.queue.memory.new p when interval).live id.timer = some tm)
    (hs : tm.sequence = id.sequence) : s.queue.memory.live id.timer = some tm := by
  by_cases hne : id.timer = p
  · rw [hne, Memory.new_live_self, Option.some.injEq] at ht
    have hle := ho.sequence_le
    rw [← ht] at hs
    simp only at hs
    omega
  · rwa [Memory.new_live_of_ne _ _ _ hne] at ht

/-- The turn of this timer comes once in a batch; the turn of another changes nothing here. -/
theorem Once.runCallback (ho : Once s id) (h : Inv s) {expired rest : List Entry} {it : Entry}
    {inCallback : Bool} {tm : Timer}
    (hb : s.batch = some
      { now := now, expired := expired, rest := it :: rest, inCallback := inCallback })
    (ht : s.queue.memory.live it.timer = some tm) :
    Once { s with
      batch := some { now := now, expired := expired, rest := rest, inCallback := true }
      started := s.started ++ [⟨it.timer, tm.sequence⟩] } id := by
  by_cases hid : id = ⟨it.timer, tm.sequence⟩
  · -- it is its turn now, so that it had none before
    subst hid
    have hnot : (⟨it.timer, tm.sequence⟩ : TimerId) ∉ s.started := by
      intro hin
      obtain ⟨b, hb', -, hrest⟩ := ho.turn ⟨tm, ht, rfl⟩ hin
      rw [hb, Option.some.injEq] at hb'
      subst hb'
      exact hrest List.mem_cons_self
    have hnodup : (expired.map Entry.timer).Nodup :=
      (List.nodup_append.mp (h.wf_batch hb).outside_nodup).1
    have hsub : (it :: rest).Sublist expired := (h.rest _ hb).sublist
    refine ⟨ho.sequence_le, ?_, ho.oneShot, fun _ _ => ⟨_, rfl, ?_, ?_⟩⟩
    · rw [List.count_append, List.count_eq_zero_of_not_mem hnot, List.count_singleton_self]
    · exact List.mem_map_of_mem (hsub.subset List.mem_cons_self)
    · exact (List.nodup_cons.mp (hnodup.sublist (hsub.map Entry.timer))).1
  · refine ⟨ho.sequence_le, ?_, ho.oneShot, ?_⟩
    · have hzero : List.count id [(⟨it.timer, tm.sequence⟩ : TimerId)] = 0 :=
        List.count_eq_zero_of_not_mem fun hin => hid (List.mem_singleton.mp hin)
      rw [List.count_append, hzero]
      exact ho.count
    · intro hl hin
      have hin' : id ∈ s.started := by
        rcases List.mem_append.mp hin with hin | hin
        · exact hin
        · exact absurd (List.mem_singleton.mp hin) hid
      obtain ⟨b, hb', hexp, hrest⟩ := ho.turn hl hin'
      rw [hb, Option.some.injEq] at hb'
      subst hb'
      exact ⟨_, rfl, hexp, fun hr => hrest (List.mem_cons_of_mem _ hr)⟩

/-- Behind a batch its timers are gone, unless they repeat. -/
theorem Once.finish_live (ho : Once s id) (h : Inv s) {clock : Timestamp}
    (hn : runs.Next s (.finish clock) t) (hl : t.queue.memory.Live id) :
    s.queue.memory.Live id ∧ id.timer ∉ s.batchTimers := by
  obtain ⟨hl, hkept⟩ := (TimerQueue.finish_live h hn id).mp hl
  refine ⟨hl, fun hin => hkept ⟨⟨hl, hin⟩, fun hkeeps => ?_⟩⟩
  obtain ⟨-, tm, ht, hrep⟩ := hkeeps
  obtain ⟨tm', ht', hs'⟩ := hl
  have hone := ho.oneShot tm' ht' hs'
  rw [ht, Option.some.injEq] at ht'
  rw [ht', hone] at hrep
  cases hrep

/-- `reset` deletes the timer if it was in the batch, and it is not in the batch afterwards. -/
theorem Once.finish (ho : Once s id) (h : Inv s) {clock : Timestamp}
    (hn : runs.Next s (.finish clock) t) : Once t id := by
  have hout := ho.finish_live h hn
  obtain ⟨now, expired, inCallback, q, hb, hwf, hr, rfl⟩ := finish_next h hn
  obtain ⟨hsame, -⟩ := resetTimers_settles hwf hr
  obtain ⟨q', hr', -, hs⟩ := resetTimers_spec hwf now
  rw [hr, Except.ok.injEq] at hr'
  subst hr'
  have hbatch : s.batchTimers = expired.map Entry.timer := by
    rw [State.batchTimers, hb]
  refine ⟨?_, ho.count, ?_, ?_⟩
  · show id.sequence ≤ (q.rearmed clock).memory.numCreated
    rw [rearmed_memory, hs.later.numCreated_eq]
    exact ho.sequence_le
  · intro tm ht hseq
    have hnot := (hout ⟨tm, ht, hseq⟩).2
    rw [hbatch] at hnot
    have hkept : (q.rearmed clock).memory.live id.timer = some tm := ht
    rw [rearmed_memory, hsame _ hnot] at hkept
    exact ho.oneShot tm hkept hseq
  · intro hl hin
    obtain ⟨hl, hnot⟩ := hout hl
    obtain ⟨b, hb', hexp, -⟩ := ho.turn hl hin
    rw [State.batchTimers, hb'] at hnot
    exact absurd hexp hnot

/-- By cases on the step. All but a callback and the end of a call leave the timer as it is, or
delete it. -/
theorem Once.next (ho : Once s id) (h : Inv s) (hn : runs.Next s a t) : Once t id := by
  have hm := next_moves h hn
  cases hm with
  | newTimer hp =>
      exact ho.kept (Nat.le_succ _) (fun _ => ho.live_new) rfl fun _ hb => hb
  | add hu hp ht =>
      refine ho.kept ?_ ?_ rfl fun _ hb => hb
      · rw [State.handed, added_memory]
      · rw [State.handed, added_memory]
        exact fun _ ht _ => ht
  | @cancelActive id' tm hu hact ht =>
      refine ho.kept (le_refl _) (fun tm' ht' _ => ?_) rfl fun _ hb => hb
      have hgone : (s.queue.memory.remove id'.timer tm).live id.timer = some tm' := ht'
      have hne : id.timer ≠ id'.timer := by
        intro heq
        rw [heq, Memory.remove_live_self] at hgone
        cases hgone
      rwa [Memory.remove_live_of_ne _ tm hne] at hgone
  | cancelOther hu hact =>
      refine ho.kept ?_ ?_ rfl fun _ hb => hb
      · rw [noted_memory]
      · rw [noted_memory]
        exact fun _ ht _ => ht
  | handleRead hb hwf hmem ht he =>
      refine ho.kept ?_ ?_ rfl fun b hb' => ?_
      · rw [hmem]
      · rw [hmem]
        exact fun _ ht _ => ht
      · rw [hb] at hb'
        cases hb'
  | runCallback hb ht => exact ho.runCallback h hb ht
  | finish => exact ho.finish h hn

/-- Once created, a timer that does not repeat starts at most once in any run. -/
theorem Once.run (ho : Once s id) (h : Inv s) (hrun : runs.Run System.always s as t) :
    Once t id := by
  have hall : Inv t ∧ Once t id := by
    refine hrun.invariant (I := fun u => Inv u ∧ Once u id) ?_ ⟨h, ho⟩
    rintro u a v ⟨hinv, hu⟩ - hn
    exact ⟨hinv.moves (next_moves hinv hn), hu.next hinv hn⟩
  exact hall.2

/-! ## The firing law -/

/-- Since `s` the timers `ids` have been started, and `new` were handed over. -/
structure Fired (s t : State) (now : Timestamp) (ids new : List TimerId) : Prop where
  started : t.started = s.started ++ ids
  added : t.added = s.added ++ new
  nodup : ids.Nodup
  due : ∀ id ∈ ids, ∃ tm, s.Queued id tm ∧ tm.expiration ≤ now
  not_new : ∀ id ∈ ids, id ∉ new
  inOrder : ids.Pairwise fun id id' => ∀ tm tm', s.Queued id tm → s.Queued id' tm' →
    tm.expiration ≤ tm'.expiration

/-- What has become at the end `t` of a call of a timer that was queued in `s`. -/
structure Served (s t : State) (now : Timestamp) (as : List Action) (id : TimerId)
    (tm : Timer) : Prop where
  started : tm.expiration ≤ now → t.started.count id = s.started.count id + 1
  freed : tm.expiration ≤ now → tm.repeats = false ∨ .cancelInLoop id ∈ as → t.Freed id
  again : tm.expiration ≤ now → tm.repeats = true → .cancelInLoop id ∉ as →
    t.Queued id { tm with expiration := now + tm.interval.micros }
  unchanged : now < tm.expiration → .cancelInLoop id ∉ as → t.Queued id tm

/-- What has been started is the front of the batch, which `expiredAt` has sorted by expiration.
-/
theorem During.fired (h : Inv s) (hd : During s now as t) : ∃ ids new, Fired s t now ids new := by
  obtain ⟨done, rest, inCallback, -, hsplit, hstarted⟩ := hd.batch
  obtain ⟨new, hadded, hnew⟩ := hd.added
  have hmem : ∀ e ∈ done, e ∈ s.queue.expiredAt now := by
    intro e he
    rw [hsplit]
    exact List.mem_append_left _ he
  have hqueued : ∀ e ∈ done, ∃ tm, s.Queued (s.idAt e) tm ∧ tm.expiration = e.when :=
    fun e he => h.queued (h.wf.mem_expiredAt.mp (hmem e he)).1
  refine ⟨done.map s.idAt, new, hstarted, hadded, ?_, ?_, ?_, ?_⟩
  · have hnodup := h.wf.expired_nodup now
    rw [hsplit, List.map_append, List.nodup_append] at hnodup
    apply List.Nodup.of_map TimerId.timer
    rw [List.map_map]
    exact hnodup.1
  · intro id hid
    obtain ⟨e, he, rfl⟩ := List.mem_map.mp hid
    obtain ⟨tm, hq, hw⟩ := hqueued e he
    exact ⟨tm, hq, hw ▸ (h.wf.mem_expiredAt.mp (hmem e he)).2⟩
  · intro id hid hin
    obtain ⟨e, he, rfl⟩ := List.mem_map.mp hid
    exact hnew _ hin (List.mem_map_of_mem (hmem e he))
  -- the order of the callbacks is that of the entries in the set
  · have hsorted : done.Pairwise (· < ·) := by
      have hall := s.queue.timers.sorted_below ⟨now, UINTPTR_MAX⟩
      rw [← expiredAt, hsplit, List.pairwise_append] at hall
      exact hall.1
    rw [List.pairwise_map]
    refine hsorted.imp_of_mem ?_
    intro e f he hf hlt tm tm' hq hq'
    obtain ⟨tm₁, hq₁, hw₁⟩ := hqueued e he
    obtain ⟨tm₂, hq₂, hw₂⟩ := hqueued f hf
    rw [hq.unique hq₁, hq'.unique hq₂, hw₁, hw₂]
    exact Entry.le_when hlt.le

/-- By the expiration: a timer that was due is in the batch, and the others stay in the queue
throughout. -/
theorem During.served (h : Inv s) (hc : Calls s now as t) {clock : Timestamp} {v : State}
    (hn : runs.Next t (.finish clock) v) (hq : s.Queued id tm) : Served s v now as id tm := by
  have hd := hc.during h
  have hinv := hd.inv.moves (next_moves hd.inv hn)
  obtain ⟨q, hv, hstarted, -, -, hsettles⟩ := hd.finish hn
  have hmem : tm.expiration ≤ now → (⟨tm.expiration, id.timer⟩ : Entry) ∈ s.queue.expiredAt now :=
    fun hle => h.wf.mem_expiredAt.mpr ⟨hq.entry, hle⟩
  have hbatch : tm.expiration ≤ now → id.timer ∈ (s.queue.expiredAt now).map Entry.timer :=
    fun hle => List.mem_map_of_mem (f := Entry.timer) (hmem hle)
  refine ⟨?_, ?_, ?_, ?_⟩
  · intro hle
    have hid : s.idAt ⟨tm.expiration, id.timer⟩ = id := by
      rw [idAt_eq hq.live, hq.sequence]
    have hin : id ∈ (s.queue.expiredAt now).map s.idAt := by
      rw [← hid]
      exact List.mem_map_of_mem (hmem hle)
    -- each entry of the batch has had its turn, and each has another timer
    have hnodup : ((s.queue.expiredAt now).map s.idAt).Nodup := by
      apply List.Nodup.of_map TimerId.timer
      rw [List.map_map]
      exact h.wf.expired_nodup now
    have hsame : v.started = t.started := by
      cases next_moves hd.inv hn with
      | finish => rfl
    rw [hsame, hstarted, List.count_append, List.count_eq_one_of_mem hnodup hin]
  · intro hle hdrop
    show id ∈ v.queue.memory.deleted
    rw [hv, rearmed_memory]
    exact (hsettles id tm (hbatch hle) hq).2 hdrop
  · intro hle hrep hcancel
    obtain ⟨hlive, hentry⟩ := (hsettles id tm (hbatch hle) hq).1 hrep hcancel
    -- a restarted timer is due an interval after the time of the call
    have hrestart : tm.restart now = { tm with expiration := now + tm.interval.micros } := by
      rw [Timer.restart, if_pos hrep]
      rfl
    rw [hrestart] at hlive hentry
    have hlive' : v.queue.memory.live id.timer
        = some { tm with expiration := now + tm.interval.micros } := by
      rw [hv, rearmed_memory]
      exact hlive
    have hentry' : (⟨now + tm.interval.micros, id.timer⟩ : Entry) ∈ v.queue.timers := by
      rw [hv, rearmed_timers]
      exact hentry
    exact ⟨hlive', hq.sequence, hentry', hinv.wf.active_of_entry hlive' hq.sequence hentry'⟩
  · intro hlt hcancel
    -- a timer that was not due is never taken out
    obtain ⟨u, hu, hrun⟩ := hc
    obtain ⟨hd', hq'⟩ :=
      (during_handleRead h hu).queued (hq.handleRead h hu hlt) hrun hcancel
    exact hd'.finish_queued hq' hn

/-- The firing law of timers. A call `handleRead(now)` starts callbacks of timers that were in
the queue when it began and were due, each once and in the order in which they were due, and of
none that is handed over in the meantime. At its end each timer that was due has started and
been freed, if it does not repeat or was cancelled in the meantime, and else is in the queue
again, `now` and its interval ahead; those that were not due are as they were, and so are those
that callbacks have added. A timer that does not repeat starts at most once in a whole run. -/
theorem timer_firing (s : State) (h : runs.Reachable System.always s) :
    (∀ now as t, Calls s now as t → (∃ ids new, Fired s t now ids new) ∧
      ∀ clock v, runs.Next t (.finish clock) v →
        (∀ id tm, s.Queued id tm → Served s v now as id tm) ∧
        ∀ bs cs u id tm, as = bs ++ cs → Calls s now bs u →
          runs.Run (fun _ a => ∀ clock, a ≠ .finish clock) u cs t → u.Queued id tm →
          .cancelInLoop id ∉ cs → v.Queued id tm) ∧
    ∀ p when interval u, interval.positive = false →
      runs.Next s (.newTimer p when interval) u →
      ∀ as t, runs.Run System.always u as t →
        t.started.count ⟨p, s.queue.memory.numCreated + 1⟩ ≤ 1 := by
  have hinv := reachable_inv h
  constructor
  · intro now as t hc
    refine ⟨(hc.during hinv).fired hinv, fun clock v hn => ⟨fun id tm hq => ?_, ?_⟩⟩
    · exact During.served hinv hc hn hq
    · intro bs cs u id tm _ hbs hrun hq hcancel
      obtain ⟨hd, hq'⟩ := (hbs.during hinv).queued hq hrun hcancel
      exact hd.finish_queued hq' hn
  · intro p when interval u hi hn as t hrun
    have hu := hinv.moves (next_moves hinv hn)
    exact ((once_new h hi hn).run hu hrun).count

/-- In the run `sample` both timers are due at the same time, and the second is cancelled. -/
theorem timer_firing_sample : ∃ s v : State, runs.Reachable System.always s ∧
    v.started = [⟨8, 1⟩, ⟨16, 2⟩] ∧ v.Freed ⟨16, 2⟩ ∧
    v.Queued ⟨8, 1⟩ ⟨250, ⟨true, 50, by decide⟩, 1⟩ := by
  have hrun := System.run_of_exec (rfl : runs.exec start (sample.take 4) = some (.ok _))
  have hreach : runs.Reachable System.always _ := ⟨start, _, rfl, hrun⟩
  have hend := ((timer_firing _ hreach).1 200
    [.runCallback, .cancelInLoop ⟨16, 2⟩, .runCallback] _
    ⟨_, rfl, (System.run_of_exec (by rfl)).of_actions (by simp)⟩).2 201 _ (by rfl)
  have hsecond := hend.1 ⟨16, 2⟩ ⟨100, ⟨false, 0, by decide⟩, 2⟩ ⟨rfl, rfl, by decide, by decide⟩
  have hfirst := hend.1 ⟨8, 1⟩ ⟨100, ⟨true, 50, by decide⟩, 1⟩ ⟨rfl, rfl, by decide, by decide⟩
  exact ⟨_, _, hreach, (by rfl), hsecond.freed (by decide) (Or.inl rfl),
    hfirst.again (by decide) rfl (by simp)⟩

end Zing.Net.TimerQueue
