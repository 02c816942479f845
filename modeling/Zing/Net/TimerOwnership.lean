import Zing.Net.TimerQueue

set_option autoImplicit false

/-! # Who owns a timer

`WF q outside` says that the two sets of a queue hold the same timers, each under its current
expiration, and that `outside` are the other live ones: the timers of the batch being run, and
those that were allocated but not added yet. Each function of the queue moves timers between
the two, and none of its assertions fails:

* `insert` puts a timer of `outside` into the sets, and `getExpired` does the opposite;
* `delete` ends one of `outside`, and `cancelInLoop` one that is in the sets;
* `reset` does away with the whole batch.
-/

namespace Zing.Net.TimerQueue

open Zing.Lib

/-- The representation invariant of a queue whose other live timers are `outside`. An entry of
`timers_` leads to a live timer that expires then (`key`); `activeTimers_` has exactly the ids of
these timers (`active`, `size`); and every live timer is in the sets or one of `outside`, not both
(`outside_live`, `outside_notMem`, `owned`). -/
structure WF (q : TimerQueue) (outside : List Addr) : Prop where
  memory : q.memory.WF
  key : ∀ e ∈ q.timers, ∃ t, q.memory.live e.timer = some t ∧ t.expiration = e.when
  active : ∀ id, id ∈ q.activeTimers ↔ q.memory.Live id ∧ ∃ e ∈ q.timers, e.timer = id.timer
  size : q.timers.size = q.activeTimers.size
  outside_live : ∀ p ∈ outside, ∃ t, q.memory.live p = some t
  outside_nodup : outside.Nodup
  outside_notMem : ∀ p ∈ outside, ∀ e ∈ q.timers, e.timer ≠ p
  owned : ∀ p t, q.memory.live p = some t → p ∈ outside ∨ ∃ e ∈ q.timers, e.timer = p

variable {q : TimerQueue} {outside : List Addr}

/-- It does not matter in which order the others are named. -/
theorem WF.perm {ps : List Addr} (h : q.WF outside) (hp : outside.Perm ps) : q.WF ps :=
  { h with
    outside_live := fun p hm => h.outside_live p (hp.mem_iff.mpr hm)
    outside_nodup := hp.nodup_iff.mp h.outside_nodup
    outside_notMem := fun p hm => h.outside_notMem p (hp.mem_iff.mpr hm)
    owned := fun p t ht => (h.owned p t ht).imp_left hp.mem_iff.mp }

/-- A timer has one key only. -/
theorem WF.key_unique (h : q.WF outside) {e f : Entry} (he : e ∈ q.timers)
    (hf : f ∈ q.timers) (heq : e.timer = f.timer) : e = f := by
  obtain ⟨t, ht, hw⟩ := h.key e he
  obtain ⟨u, hu, hv⟩ := h.key f hf
  rw [heq, hu, Option.some.injEq] at ht
  have hwhen : e.when = f.when := by rw [← hw, ← hv, ht]
  obtain ⟨w, p⟩ := e
  obtain ⟨v, p'⟩ := f
  simp_all

/-- An empty queue, and no timer anywhere. -/
theorem new_wf : new.WF [] where
  memory := Memory.start_wf
  key := by intro e he; exact absurd he (OrdSet.notMem_empty e)
  active := by
    intro id
    refine ⟨fun hid => absurd hid (OrdSet.notMem_empty id), ?_⟩
    rintro ⟨-, e, he, -⟩
    exact absurd he (OrdSet.notMem_empty e)
  size := rfl
  outside_live := by intro p hp; cases hp
  outside_nodup := List.nodup_nil
  outside_notMem := by intro p hp; cases hp
  owned := by intro p t ht; cases ht

/-- A pointer to a live timer may be followed. -/
theorem deref_eq {p : Addr} {t : Timer} (ht : q.memory.live p = some t) :
    q.deref p = .ok t := by
  simp only [deref, ht]

/-! ## Memory changes outside the sets -/

/-- `new Timer` gives an address that nobody has, so the timer is one of the others. -/
theorem WF.newTimer (h : q.WF outside) {p : Addr} (when : Timestamp) (interval : Interval)
    (hp : q.memory.Available p) :
    WF { q with memory := q.memory.new p when interval } (p :: outside) := by
  have hnone : q.memory.live p = none := hp.2.2
  -- an address is given out only while nothing lives there
  have hold : ∀ r u, q.memory.live r = some u → r ≠ p := by
    rintro r u hu rfl
    rw [hnone] at hu
    cases hu
  have hnotMem : ∀ e ∈ q.timers, e.timer ≠ p := by
    intro e he
    obtain ⟨t, ht, -⟩ := h.key e he
    exact hold _ t ht
  refine
    { memory := h.memory.new when interval hp, key := ?_, active := ?_, size := h.size,
      outside_live := ?_, outside_nodup := ?_, outside_notMem := ?_, owned := ?_ }
  · intro e he
    rw [Memory.new_live_of_ne _ _ _ (hnotMem e he)]
    exact h.key e he
  · intro id
    rw [h.active id, Memory.live_new when interval hnone]
    refine ⟨fun hid => ⟨Or.inl hid.1, hid.2⟩, ?_⟩
    rintro ⟨hid | rfl, e, he, heq⟩
    · exact ⟨hid, e, he, heq⟩
    -- the new timer is in neither set
    · exact absurd heq (hnotMem e he)
  · intro r hr
    rcases List.mem_cons.mp hr with rfl | hr
    · exact ⟨_, Memory.new_live_self ..⟩
    · obtain ⟨u, hu⟩ := h.outside_live r hr
      exact ⟨u, by rw [Memory.new_live_of_ne _ _ _ (hold r u hu)]; exact hu⟩
  · refine List.nodup_cons.mpr ⟨?_, h.outside_nodup⟩
    intro hm
    obtain ⟨u, hu⟩ := h.outside_live p hm
    exact hold p u hu rfl
  · intro r hr e he
    rcases List.mem_cons.mp hr with rfl | hr
    · exact hnotMem e he
    · exact h.outside_notMem r hr e he
  · intro r u hu
    by_cases hr : r = p
    · exact Or.inl (by rw [hr]; exact List.mem_cons_self)
    · rw [Memory.new_live_of_ne _ _ _ hr] at hu
      exact (h.owned r u hu).imp_left (List.mem_cons_of_mem p)

/-- A timer outside the sets may change its expiration. -/
theorem WF.store (h : q.WF outside) {p : Addr} {t t' : Timer} (hp : p ∈ outside)
    (ht : q.memory.live p = some t) (hs : t'.sequence = t.sequence) :
    WF { q with memory := q.memory.store p t' } outside := by
  refine
    { h with
      memory := h.memory.store ht hs, key := ?_, active := ?_, outside_live := ?_, owned := ?_ }
  · intro e he
    rw [Memory.store_live_of_ne _ _ (h.outside_notMem p hp e he)]
    exact h.key e he
  · intro id
    rw [Memory.live_store ht hs]
    exact h.active id
  · intro r hr
    by_cases hrp : r = p
    · subst hrp
      exact ⟨t', Memory.store_live_self ..⟩
    · rw [Memory.store_live_of_ne _ _ hrp]
      exact h.outside_live r hr
  · intro r u hu
    by_cases hrp : r = p
    · exact Or.inl (hrp ▸ hp)
    · rw [Memory.store_live_of_ne _ _ hrp] at hu
      exact h.owned r u hu

/-- A timer outside the sets is deleted. -/
theorem WF.remove {p : Addr} (h : q.WF (p :: outside)) {t : Timer}
    (ht : q.memory.live p = some t) :
    WF { q with memory := q.memory.remove p t } outside := by
  have hnotMem : ∀ e ∈ q.timers, e.timer ≠ p := h.outside_notMem p List.mem_cons_self
  obtain ⟨hp, hnodup⟩ := List.nodup_cons.mp h.outside_nodup
  refine
    { memory := h.memory.remove ht, key := ?_, active := ?_, size := h.size,
      outside_live := ?_, outside_nodup := hnodup
      outside_notMem := fun r hr => h.outside_notMem r (List.mem_cons_of_mem p hr)
      owned := ?_ }
  · intro e he
    rw [Memory.remove_live_of_ne _ _ (hnotMem e he)]
    exact h.key e he
  · intro id
    rw [h.active id, Memory.live_remove]
    constructor
    · rintro ⟨hid, e, he, heq⟩
      -- what is in a set is not the timer that is deleted
      exact ⟨⟨hid, by rw [← heq]; exact hnotMem e he⟩, e, he, heq⟩
    · rintro ⟨hid, hmem⟩
      exact ⟨hid.1, hmem⟩
  · intro r hr
    have hrp : r ≠ p := by
      rintro rfl
      exact hp hr
    rw [Memory.remove_live_of_ne _ _ hrp]
    exact h.outside_live r (List.mem_cons_of_mem p hr)
  · intro r u hu
    by_cases hrp : r = p
    · rw [hrp, Memory.remove_live_self] at hu
      cases hu
    · rw [Memory.remove_live_of_ne _ _ hrp] at hu
      rcases h.owned r u hu with hr | hr
      · exact Or.inl (List.mem_of_ne_of_mem hrp hr)
      · exact Or.inr hr

theorem delete_eq {p : Addr} {t : Timer} (ht : q.memory.live p = some t) :
    q.delete p = .ok { q with memory := q.memory.remove p t } := by
  rw [delete, deref_eq ht, ok_bind]

/-! ## Into the sets -/

/-- The queue with the timer `t` at `p` in both sets. -/
def put (q : TimerQueue) (p : Addr) (t : Timer) : TimerQueue :=
  { q with
    timers := (q.timers.insert ⟨t.expiration, p⟩).1
    activeTimers := (q.activeTimers.insert ⟨p, t.sequence⟩).1 }

/-- A timer that expires at `when` would be the first. -/
def earliest (q : TimerQueue) (when : Timestamp) : Bool :=
  match q.timers.first with
  | none => true
  | some it => decide (when < it.when)

/-- What the answer says of the timers in the set. -/
theorem earliest_eq_false {when : Timestamp} (h : q.earliest when = false) :
    ∃ e ∈ q.timers, e.when ≤ when := by
  unfold earliest at h
  cases hf : q.timers.first with
  | none => simp [hf] at h
  | some e =>
      simp only [hf, decide_eq_false_iff_not, not_lt] at h
      exact ⟨e, OrdSet.first_mem hf, h⟩

theorem earliest_eq_true {when : Timestamp} (h : q.earliest when = true) :
    ∀ e ∈ q.timers, when ≤ e.when := by
  intro e he
  unfold earliest at h
  cases hf : q.timers.first with
  | none => exact absurd he (OrdSet.first_eq_none.mp hf e)
  | some f =>
      simp only [hf, decide_eq_true_iff] at h
      exact h.le.trans (Entry.le_when (OrdSet.first_le hf he))

section put

variable {p : Addr} {t : Timer}

/-- Both insertions are of something new, as the assertions behind them say. -/
theorem WF.fresh (h : q.WF (p :: outside)) :
    (⟨t.expiration, p⟩ : Entry) ∉ q.timers ∧ (⟨p, t.sequence⟩ : TimerId) ∉ q.activeTimers := by
  have hnotMem : ∀ e ∈ q.timers, e.timer ≠ p := h.outside_notMem p List.mem_cons_self
  constructor
  · intro hm
    exact hnotMem _ hm rfl
  · intro hm
    obtain ⟨-, e, he, heq⟩ := (h.active _).mp hm
    exact hnotMem e he heq

/-- The timer goes from the others into the sets. -/
theorem WF.put (h : q.WF (p :: outside)) (ht : q.memory.live p = some t) :
    (q.put p t).WF outside := by
  obtain ⟨hfresh, hfreshActive⟩ := h.fresh (t := t)
  obtain ⟨hp, hnodup⟩ := List.nodup_cons.mp h.outside_nodup
  refine
    { memory := h.memory, key := ?_, active := ?_, size := ?_
      outside_live := fun r hr => h.outside_live r (List.mem_cons_of_mem p hr)
      outside_nodup := hnodup, outside_notMem := ?_, owned := ?_ }
  · intro e he
    rcases OrdSet.mem_insert.mp he with rfl | he
    · exact ⟨t, ht, rfl⟩
    · exact h.key e he
  · intro id
    constructor
    · intro hid
      rcases OrdSet.mem_insert.mp hid with rfl | hid
      · exact ⟨⟨t, ht, rfl⟩, _, OrdSet.mem_insert.mpr (Or.inl rfl), rfl⟩
      · obtain ⟨hl, e, he, heq⟩ := (h.active id).mp hid
        exact ⟨hl, e, OrdSet.mem_insert.mpr (Or.inr he), heq⟩
    · rintro ⟨hl, e, he, heq⟩
      rcases OrdSet.mem_insert.mp he with rfl | he
      · -- a live timer at `p` is `t`
        have hl' : q.memory.Live id := hl
        obtain ⟨r, n⟩ := id
        obtain ⟨u, hu, hn⟩ := hl'
        simp only at heq hu hn
        subst heq
        rw [ht, Option.some.injEq] at hu
        subst hu
        exact OrdSet.mem_insert.mpr (Or.inl (by rw [hn]))
      · exact OrdSet.mem_insert.mpr (Or.inr ((h.active id).mpr ⟨hl, e, he, heq⟩))
  · show (q.timers.insert _).1.size = (q.activeTimers.insert _).1.size
    rw [OrdSet.size_insert hfresh, OrdSet.size_insert hfreshActive, h.size]
  · intro r hr e he
    rcases OrdSet.mem_insert.mp he with rfl | he
    · rintro rfl
      exact hp hr
    · exact h.outside_notMem r (List.mem_cons_of_mem p hr) e he
  · intro r u hu
    rcases h.owned r u hu with hr | ⟨e, he, heq⟩
    · rcases List.mem_cons.mp hr with rfl | hr
      · exact Or.inr ⟨_, OrdSet.mem_insert.mpr (Or.inl rfl), rfl⟩
      · exact Or.inl hr
    · exact Or.inr ⟨e, OrdSet.mem_insert.mpr (Or.inr he), heq⟩

/-- None of the assertions of `insert` fails for a timer that is not in the sets. -/
theorem insert_eq (h : q.WF (p :: outside)) (ht : q.memory.live p = some t) :
    q.insert p = .ok (q.put p t, q.earliest t.expiration) := by
  obtain ⟨hfresh, hfreshActive⟩ := h.fresh (t := t)
  unfold insert
  rw [check_bind h.size, deref_eq ht]
  simp only [ok_bind]
  rw [check_bind (OrdSet.insert_new hfresh), check_bind (OrdSet.insert_new hfreshActive)]
  exact check_bind (h.put ht).size _

/-- What `addTimerInLoop` makes of the queue. -/
def added (q : TimerQueue) (p : Addr) (t : Timer) (now : Timestamp) : TimerQueue :=
  if q.earliest t.expiration = true then
    { q.put p t with timerfd := resetTimerfd q.timerfd t.expiration now }
  else q.put p t

/-- `addTimerInLoop` inserts the timer, and sets the timerfd when it is the first. -/
theorem addTimerInLoop_eq (h : q.WF (p :: outside)) (ht : q.memory.live p = some t)
    (now : Timestamp) : q.addTimerInLoop p now = .ok (q.added p t now) := by
  have ht' : (q.put p t).memory.live p = some t := ht
  unfold addTimerInLoop added
  rw [insert_eq h ht, ok_bind]
  by_cases he : q.earliest t.expiration = true
  · rw [if_pos he, if_pos he, deref_eq ht', ok_bind]
    rfl
  · rw [if_neg he, if_neg he]

/-- It does not touch the timers, nor what a batch keeps of itself. -/
theorem added_memory (now : Timestamp) : (q.added p t now).memory = q.memory := by
  unfold added
  split <;> rfl

theorem added_timers (now : Timestamp) : (q.added p t now).timers = (q.put p t).timers := by
  unfold added
  split <;> rfl

theorem added_flags (now : Timestamp) :
    (q.added p t now).callingExpiredTimers = q.callingExpiredTimers ∧
      (q.added p t now).cancelingTimers = q.cancelingTimers := by
  unfold added
  split <;> exact ⟨rfl, rfl⟩

theorem WF.added (h : q.WF (p :: outside)) (ht : q.memory.live p = some t) (now : Timestamp) :
    (q.added p t now).WF outside := by
  unfold TimerQueue.added
  split
  · exact { h.put ht with }
  · exact h.put ht

end put

/-! ## Out of the sets -/

/-- The queue without the live timer `t`, known as `id`. -/
def dropped (q : TimerQueue) (id : TimerId) (t : Timer) : TimerQueue :=
  { q with
    timers := q.timers.erase ⟨t.expiration, id.timer⟩
    activeTimers := q.activeTimers.erase id
    memory := q.memory.remove id.timer t }

/-- What `cancelInLoop` makes of a queue that does not hold the timer. -/
def noted (q : TimerQueue) (id : TimerId) : TimerQueue :=
  if q.callingExpiredTimers = true then
    { q with cancelingTimers := (q.cancelingTimers.insert id).1 }
  else q

section cancel

variable {id : TimerId}

/-- An id in `activeTimers_` leads to a live timer with this sequence, and to its entry. -/
theorem WF.active_entry (h : q.WF outside) (hid : id ∈ q.activeTimers) :
    ∃ t, q.memory.live id.timer = some t ∧ t.sequence = id.sequence ∧
      (⟨t.expiration, id.timer⟩ : Entry) ∈ q.timers := by
  obtain ⟨⟨t, ht, hs⟩, e, he, heq⟩ := (h.active id).mp hid
  obtain ⟨u, hu, hw⟩ := h.key e he
  rw [heq, ht, Option.some.injEq] at hu
  subst hu
  refine ⟨t, ht, hs, ?_⟩
  rw [hw, ← heq]
  exact he

/-- The entry of the timer and its id leave the sets together, and nothing else does. -/
theorem WF.taken (h : q.WF outside) {t : Timer} (hid : id ∈ q.activeTimers)
    (ht : q.memory.live id.timer = some t) :
    WF { q with
      timers := q.timers.erase ⟨t.expiration, id.timer⟩
      activeTimers := q.activeTimers.erase id } (id.timer :: outside) := by
  obtain ⟨u, hu, hs, hmem⟩ := h.active_entry hid
  rw [ht, Option.some.injEq] at hu
  subst hu
  have hother : ∀ e ∈ q.timers, e ≠ ⟨t.expiration, id.timer⟩ → e.timer ≠ id.timer := by
    intro e he hne heq
    exact hne (h.key_unique he hmem heq)
  refine
    { memory := h.memory, key := ?_, active := ?_, size := ?_, outside_live := ?_,
      outside_nodup := ?_, outside_notMem := ?_, owned := ?_ }
  · intro e he
    exact h.key e (OrdSet.mem_erase.mp he).1
  · intro id'
    rw [OrdSet.mem_erase, h.active id']
    constructor
    · rintro ⟨⟨hl, e, he, heq⟩, hne⟩
      refine ⟨hl, e, OrdSet.mem_erase.mpr ⟨he, ?_⟩, heq⟩
      -- an entry at the address of `id` would make the two ids equal
      rintro rfl
      obtain ⟨v, hv, hs'⟩ := hl
      rw [← heq, ht, Option.some.injEq] at hv
      subst hv
      apply hne
      obtain ⟨r, n⟩ := id
      obtain ⟨r', n'⟩ := id'
      simp_all
    · rintro ⟨hl, e, he, heq⟩
      obtain ⟨hmem', hne⟩ := OrdSet.mem_erase.mp he
      refine ⟨⟨hl, e, hmem', heq⟩, ?_⟩
      rintro rfl
      exact hother e hmem' hne heq
  · have htimers := OrdSet.size_erase hmem
    have hactive := OrdSet.size_erase hid
    have hsize := h.size
    show (q.timers.erase _).size = (q.activeTimers.erase _).size
    omega
  · intro r hr
    rcases List.mem_cons.mp hr with rfl | hr
    · exact ⟨t, ht⟩
    · exact h.outside_live r hr
  · refine List.nodup_cons.mpr ⟨?_, h.outside_nodup⟩
    intro hm
    exact h.outside_notMem _ hm _ hmem rfl
  · intro r hr e he
    obtain ⟨he, hne⟩ := OrdSet.mem_erase.mp he
    rcases List.mem_cons.mp hr with rfl | hr
    · exact hother e he hne
    · exact h.outside_notMem r hr e he
  · intro r u hu
    by_cases hr : r = id.timer
    · exact Or.inl (by rw [hr]; exact List.mem_cons_self)
    · rcases h.owned r u hu with hm | ⟨e, he, heq⟩
      · exact Or.inl (List.mem_cons_of_mem _ hm)
      · refine Or.inr ⟨e, OrdSet.mem_erase.mpr ⟨he, ?_⟩, heq⟩
        rintro rfl
        exact hr heq.symm

/-- A timer that is cancelled leaves the sets and is deleted. -/
theorem WF.dropped (h : q.WF outside) {t : Timer} (hid : id ∈ q.activeTimers)
    (ht : q.memory.live id.timer = some t) : (q.dropped id t).WF outside :=
  (h.taken hid ht).remove ht

/-- A cancellation that finds nothing changes no set that matters here. -/
theorem WF.noted (h : q.WF outside) (id : TimerId) : (q.noted id).WF outside := by
  unfold TimerQueue.noted
  split
  · exact { h with }
  · exact h

theorem noted_memory : (q.noted id).memory = q.memory := by
  unfold noted
  split <;> rfl

theorem noted_timers (q : TimerQueue) (id : TimerId) : (q.noted id).timers = q.timers ∧
    (q.noted id).timerfd = q.timerfd ∧
    (q.noted id).callingExpiredTimers = q.callingExpiredTimers := by
  unfold noted
  split <;> exact ⟨rfl, rfl, rfl⟩

/-- A timer in the sets is erased from both, once each, and deleted. -/
theorem cancelInLoop_active (h : q.WF outside) {t : Timer} (hid : id ∈ q.activeTimers)
    (ht : q.memory.live id.timer = some t) : q.cancelInLoop id = .ok (q.dropped id t) := by
  obtain ⟨u, hu, hs, hmem⟩ := h.active_entry hid
  rw [ht, Option.some.injEq] at hu
  subst hu
  unfold cancelInLoop
  rw [check_bind h.size, if_pos hid, deref_eq ht]
  simp only [ok_bind]
  rw [check_bind (OrdSet.count_eq_one hmem),
    delete_eq (q := { q with timers := q.timers.erase ⟨t.expiration, id.timer⟩ }) ht]
  simp only [ok_bind]
  exact check_bind (h.dropped hid ht).size _

/-- Any other id is noted during a batch, and ignored else. -/
theorem cancelInLoop_other (h : q.WF outside) (hid : id ∉ q.activeTimers) :
    q.cancelInLoop id = .ok (q.noted id) := by
  unfold cancelInLoop
  rw [check_bind h.size, if_neg hid]
  exact check_bind (h.noted id).size _

end cancel

/-! ## The expired timers -/

/-- The loop of `getExpired` takes the ids of the batch out, each of which is there. -/
theorem eraseActive_eq {expired : List Entry} (hlive : ∀ id ∈ q.activeTimers, q.memory.Live id)
    (hmem : ∀ e ∈ expired, ∃ id ∈ q.activeTimers, id.timer = e.timer)
    (hnodup : (expired.map Entry.timer).Nodup) :
    ∃ a, q.eraseActive expired = .ok { q with activeTimers := a } ∧
      (∀ id, id ∈ a ↔ id ∈ q.activeTimers ∧ id.timer ∉ expired.map Entry.timer) ∧
      a.size + expired.length = q.activeTimers.size := by
  induction expired generalizing q with
  | nil => exact ⟨q.activeTimers, rfl, by simp, rfl⟩
  | cons e expired ih =>
      obtain ⟨hout, hnodup⟩ := List.nodup_cons.mp hnodup
      obtain ⟨id, hid, heq⟩ := hmem e List.mem_cons_self
      obtain ⟨t, ht, hs⟩ := hlive id hid
      obtain ⟨r, n⟩ := id
      simp only at heq ht hs
      subst heq hs
      -- ids of live timers differ in the address
      have haddr : ∀ id' ∈ q.activeTimers, id' ≠ ⟨e.timer, t.sequence⟩ → id'.timer ≠ e.timer := by
        intro id' hid' hne heq
        obtain ⟨u, hu, hs'⟩ := hlive id' hid'
        rw [heq, ht, Option.some.injEq] at hu
        subst hu
        apply hne
        obtain ⟨r', n'⟩ := id'
        simp_all
      have hlive' : ∀ id' ∈ q.activeTimers.erase ⟨e.timer, t.sequence⟩, q.memory.Live id' :=
        fun id' hid' => hlive id' (OrdSet.mem_erase.mp hid').1
      have hmem' : ∀ f ∈ expired,
          ∃ id' ∈ q.activeTimers.erase ⟨e.timer, t.sequence⟩, id'.timer = f.timer := by
        intro f hf
        obtain ⟨id', hid', heq'⟩ := hmem f (List.mem_cons_of_mem e hf)
        refine ⟨id', OrdSet.mem_erase.mpr ⟨hid', ?_⟩, heq'⟩
        rintro rfl
        exact hout (by
          simp only at heq'
          rw [heq']
          exact List.mem_map_of_mem hf)
      obtain ⟨a, ha, hiff, hsize⟩ :=
        ih (q := { q with activeTimers := q.activeTimers.erase ⟨e.timer, t.sequence⟩ })
          hlive' hmem' hnodup
      refine ⟨a, ?_, ?_, ?_⟩
      · unfold eraseActive
        rw [deref_eq ht]
        simp only [ok_bind]
        rw [check_bind (OrdSet.count_eq_one hid)]
        exact ha
      · intro id'
        rw [hiff id', OrdSet.mem_erase, List.map_cons, List.mem_cons, not_or]
        constructor
        · rintro ⟨⟨hid', hne⟩, hrest⟩
          exact ⟨hid', haddr id' hid' hne, hrest⟩
        · rintro ⟨hid', hne, hrest⟩
          exact ⟨⟨hid', fun heq => hne (by rw [heq])⟩, hrest⟩
      · have hone := OrdSet.size_erase hid
        simp only [List.length_cons] at hsize ⊢
        omega

/-- The entries that have expired at `now`, those in front of the sentry. -/
def expiredAt (q : TimerQueue) (now : Timestamp) : List Entry := q.timers.below ⟨now, UINTPTR_MAX⟩

/-- The sentry, whose address is the highest there is, stands behind every entry of its time: what
expires at `now` itself is in front. -/
theorem WF.mem_expiredAt (h : q.WF outside) {now : Timestamp} {e : Entry} :
    e ∈ q.expiredAt now ↔ e ∈ q.timers ∧ e.when ≤ now := by
  rw [expiredAt, OrdSet.mem_below, Entry.lt_iff]
  constructor
  · rintro ⟨he, hlt | heq⟩
    · exact ⟨he, hlt.le⟩
    · exact ⟨he, heq.1.le⟩
  · rintro ⟨he, hle⟩
    obtain ⟨t, ht, -⟩ := h.key e he
    rcases hle.lt_or_eq with hlt | heq
    · exact ⟨he, Or.inl hlt⟩
    · exact ⟨he, Or.inr ⟨heq, h.memory.addr_lt _ t ht⟩⟩

/-- The other entries are later. -/
theorem WF.mem_rest (h : q.WF outside) {now : Timestamp} {e : Entry} :
    e ∈ q.timers.fromLowerBound ⟨now, UINTPTR_MAX⟩ ↔ e ∈ q.timers ∧ now < e.when := by
  have hexp : e ∈ q.expiredAt now ↔ e ∈ q.timers ∧ e.when ≤ now := h.mem_expiredAt
  rw [expiredAt, OrdSet.mem_below] at hexp
  rw [OrdSet.mem_fromLowerBound]
  constructor
  · rintro ⟨he, hle⟩
    refine ⟨he, lt_of_not_ge fun hw => ?_⟩
    exact absurd (hexp.mpr ⟨he, hw⟩).2 (not_lt.mpr hle)
  · rintro ⟨he, hlt⟩
    refine ⟨he, le_of_not_gt fun hw => ?_⟩
    exact absurd (hexp.mp ⟨he, hw⟩).2 (not_le.mpr hlt)

/-- A timer has one key, so no timer is in a batch twice. -/
theorem WF.expired_nodup (h : q.WF outside) (now : Timestamp) :
    ((q.expiredAt now).map Entry.timer).Nodup := by
  refine List.Nodup.map_on ?_ ((q.timers.sorted_below _).imp ne_of_lt)
  intro e he f hf heq
  exact h.key_unique (h.mem_expiredAt.mp he).1 (h.mem_expiredAt.mp hf).1 heq

/-- An entry is in the batch, or it stays. -/
theorem WF.expired_or_rest (h : q.WF outside) (now : Timestamp) {e : Entry} (he : e ∈ q.timers) :
    e ∈ q.expiredAt now ∨ e ∈ q.timers.fromLowerBound ⟨now, UINTPTR_MAX⟩ := by
  rcases le_or_gt e.when now with hle | hlt
  · exact Or.inl (h.mem_expiredAt.mpr ⟨he, hle⟩)
  · exact Or.inr (h.mem_rest.mpr ⟨he, hlt⟩)

/-- No timer of the batch has an entry that stays. -/
theorem WF.rest_apart (h : q.WF outside) {now : Timestamp} {e : Entry}
    (he : e ∈ q.timers.fromLowerBound ⟨now, UINTPTR_MAX⟩) :
    e.timer ∉ (q.expiredAt now).map Entry.timer := by
  intro hm
  obtain ⟨hmem, hlt⟩ := h.mem_rest.mp he
  obtain ⟨f, hf, heq⟩ := List.mem_map.mp hm
  obtain ⟨hmemf, hle⟩ := h.mem_expiredAt.mp hf
  have hef := h.key_unique hmemf hmem heq
  subst hef
  exact absurd hle (not_le.mpr hlt)

/-- The batch leaves both sets, and its timers belong to it until they are reset. -/
theorem WF.expire (h : q.WF outside) (now : Timestamp) {a : OrdSet TimerId}
    (hiff : ∀ id, id ∈ a ↔
      id ∈ q.activeTimers ∧ id.timer ∉ (q.expiredAt now).map Entry.timer)
    (hsize : (q.timers.fromLowerBound ⟨now, UINTPTR_MAX⟩).size = a.size) :
    ({ q with timers := q.timers.fromLowerBound ⟨now, UINTPTR_MAX⟩, activeTimers := a } :
      TimerQueue).WF (outside ++ (q.expiredAt now).map Entry.timer) := by
  have hmem : ∀ e ∈ q.expiredAt now, e ∈ q.timers := fun e he => (h.mem_expiredAt.mp he).1
  refine
    { memory := h.memory, key := fun e he => h.key e (h.mem_rest.mp he).1, active := ?_,
      size := hsize, outside_live := ?_, outside_nodup := ?_, outside_notMem := ?_,
      owned := ?_ }
  · intro id
    rw [hiff id, h.active id]
    constructor
    · rintro ⟨⟨hl, e, he, heq⟩, hnot⟩
      -- an entry is expired, or it stays
      rcases h.expired_or_rest now he with hexp | hrest
      · exact absurd (List.mem_map.mpr ⟨e, hexp, heq⟩) hnot
      · exact ⟨hl, e, hrest, heq⟩
    · rintro ⟨hl, e, he, heq⟩
      exact ⟨⟨hl, e, (h.mem_rest.mp he).1, heq⟩, heq ▸ h.rest_apart he⟩
  · intro r hr
    rcases List.mem_append.mp hr with hr | hr
    · exact h.outside_live r hr
    · obtain ⟨e, he, rfl⟩ := List.mem_map.mp hr
      obtain ⟨t, ht, -⟩ := h.key e (hmem e he)
      exact ⟨t, ht⟩
  · refine List.nodup_append.mpr ⟨h.outside_nodup, h.expired_nodup now, ?_⟩
    -- the batch comes out of the sets, and those outside were in none
    rintro r hr _ hm rfl
    obtain ⟨e, he, heq⟩ := List.mem_map.mp hm
    exact h.outside_notMem r hr e (hmem e he) heq
  · intro r hr e he
    rcases List.mem_append.mp hr with hr | hr
    · exact h.outside_notMem r hr e (h.mem_rest.mp he).1
    · rintro rfl
      exact h.rest_apart he hr
  · intro r u hu
    rcases h.owned r u hu with hr | ⟨e, he, heq⟩
    · exact Or.inl (List.mem_append_left _ hr)
    · rcases h.expired_or_rest now he with hexp | hrest
      · exact Or.inl (List.mem_append_right _ (List.mem_map.mpr ⟨e, hexp, heq⟩))
      · exact Or.inr ⟨e, hrest, heq⟩

/-- `getExpired` takes the timers that have expired out of both sets, and no assertion of it
fails. -/
theorem getExpired_spec (h : q.WF outside) (now : Timestamp) :
    ∃ q', q.getExpired now = .ok (q', q.expiredAt now) ∧
      q'.WF (outside ++ (q.expiredAt now).map Entry.timer) ∧ q'.memory = q.memory ∧
      q'.timerfd = q.timerfd ∧ ∀ e, e ∈ q'.timers ↔ e ∈ q.timers ∧ now < e.when := by
  have hids : ∀ e ∈ q.expiredAt now, ∃ id ∈ q.activeTimers, id.timer = e.timer := by
    intro e he
    have hmem := (h.mem_expiredAt.mp he).1
    obtain ⟨t, ht, -⟩ := h.key e hmem
    exact ⟨⟨e.timer, t.sequence⟩, (h.active _).mpr ⟨⟨t, ht, rfl⟩, e, hmem, rfl⟩, rfl⟩
  obtain ⟨a, ha, hiff, hsize⟩ :=
    eraseActive_eq (q := { q with timers := q.timers.fromLowerBound ⟨now, UINTPTR_MAX⟩ })
      (fun id hid => ((h.active id).mp hid).1) hids (h.expired_nodup now)
  -- the two sets lose as many elements each
  have hsizes : (q.timers.fromLowerBound ⟨now, UINTPTR_MAX⟩).size = a.size := by
    have htimers := q.timers.size_fromLowerBound ⟨now, UINTPTR_MAX⟩
    have heq := h.size
    rw [expiredAt] at hsize
    simp only at hsize
    omega
  have hfirst : ((q.timers.fromLowerBound ⟨now, UINTPTR_MAX⟩).first.all
      fun it => decide (now < it.when)) = true := by
    cases hf : (q.timers.fromLowerBound ⟨now, UINTPTR_MAX⟩).first with
    | none => rfl
    | some e => simpa using (h.mem_rest.mp (OrdSet.first_mem hf)).2
  refine ⟨{ q with timers := q.timers.fromLowerBound ⟨now, UINTPTR_MAX⟩, activeTimers := a },
    ?_, h.expire now hiff hsizes, rfl, rfl, fun e => h.mem_rest⟩
  unfold getExpired
  rw [check_bind h.size, check_bind hfirst]
  show (eraseActive _ (q.expiredAt now) >>= _) = _
  rw [ha, ok_bind, check_bind hsizes]
  rfl

end Zing.Net.TimerQueue
