import Mathlib.Algebra.Group.Int.Defs
import Zing.Net.TimerRuns

set_option autoImplicit false

/-! # Arming the timer descriptor

Between two calls of `handleRead` the descriptor is armed for a time that is not later than
any timer in the queue. `handleRead` itself breaks this when it reads the descriptor, and
`reset` restores it by arming for the first timer, except where that timer's expiration is not
`valid()`. The invariant that covers the exception is that the timers at zero or below are
covered all the time: they are none when the batch is taken, since the clock is positive; a
callback that adds such a timer arms for it, or finds an earlier one; and `reset` puts none
back.
-/

namespace Zing.Net.TimerQueue

open Zing.Lib

/-! ## The values that arm the descriptor -/

/-- A value for `timerfd_settime` that is well formed and at least 100 microseconds long. -/
structure Arms (ts : Timespec) : Prop where
  nsec_nonneg : 0 ≤ ts.tv_nsec
  nsec_lt : ts.tv_nsec < 10 ^ 9
  total : 100 * 1000 ≤ ts.tv_sec * 10 ^ 9 + ts.tv_nsec

theorem howMuchTimeFromNow_arms (when now : Timestamp) :
    Arms (howMuchTimeFromNow when now) := by
  obtain ⟨us, hus, hle⟩ : ∃ us : Int, 100 ≤ us ∧ howMuchTimeFromNow when now =
      { tv_sec := us / 1000000, tv_nsec := us % 1000000 * 1000 } := by
    refine ⟨if when - now < 100 then 100 else when - now, ?_, ?_⟩
    · split
      · exact le_refl _
      · case isFalse h => exact not_lt.mp h
    · have hnonneg : 0 ≤ (if when - now < 100 then 100 else when - now) := by
        split
        · decide
        · case isFalse h => exact le_trans (by decide) (not_lt.mp h)
      unfold howMuchTimeFromNow Timestamp.kMicroSecondsPerSecond
      simp only [Int.tdiv_eq_ediv_of_nonneg hnonneg, Int.tmod_eq_emod_of_nonneg hnonneg]
      rfl
  rw [hle]
  constructor <;> simp only <;> omega

/-! ## Timers that are covered -/

/-- The descriptor is armed for `when` or an earlier time. -/
def Covers (q : TimerQueue) (when : Timestamp) : Prop :=
  ∃ a, q.timerfd.armed = some a ∧ a ≤ when

theorem Covers.mono {q : TimerQueue} {w v : Timestamp} (h : q.Covers w) (hwv : w ≤ v) :
    q.Covers v := by
  obtain ⟨a, ha, hle⟩ := h
  exact ⟨a, ha, hle.trans hwv⟩

/-- The timers that have to be covered: all of them outside `handleRead`, and those at zero
or below at any moment. -/
def State.Watched (s : State) (when : Timestamp) : Prop := s.batch = none ∨ when ≤ 0

/-- What holds in every state of a run in which `handleRead` reads a positive clock. -/
structure Armed (s : State) : Prop where
  covered : ∀ e ∈ s.queue.timers, s.Watched e.when → s.queue.Covers e.when
  now_pos : ∀ b, s.batch = some b → 0 < b.now
  settimes : ∀ ts ∈ s.queue.timerfd.settimes, Arms ts

theorem armed_start : Armed start where
  covered := by intro e he; exact absurd he (OrdSet.notMem_empty e)
  now_pos := by intro b hb; cases hb
  settimes := by intro ts hts; cases hts

theorem resetTimerfd_settimes {fd : Timerfd} (h : ∀ ts ∈ fd.settimes, Arms ts)
    (when now : Timestamp) : ∀ ts ∈ (resetTimerfd fd when now).settimes, Arms ts := by
  intro ts hts
  rcases List.mem_append.mp hts with hts | hts
  · exact h ts hts
  · rw [List.mem_singleton.mp hts]
    exact howMuchTimeFromNow_arms when now

variable {s t : State} {q : TimerQueue}

/-- A timer that is added is covered if the one in front of it is. -/
theorem added_covered {p : Addr} {tm : Timer} (now : Timestamp)
    (h : ∀ e ∈ q.timers, s.Watched e.when → q.Covers e.when) :
    ∀ e ∈ (q.added p tm now).timers, s.Watched e.when → (q.added p tm now).Covers e.when := by
  intro e he hw
  rw [added_timers] at he
  have hmem : e = ⟨tm.expiration, p⟩ ∨ e ∈ q.timers := OrdSet.mem_insert.mp he
  unfold added
  by_cases hfirst : q.earliest tm.expiration = true
  · rw [if_pos hfirst]
    refine ⟨tm.expiration, rfl, ?_⟩
    rcases hmem with rfl | hmem
    · exact le_refl _
    · exact earliest_eq_true hfirst e hmem
  · rw [if_neg hfirst]
    rcases hmem with rfl | hmem
    · obtain ⟨f, hf, hle⟩ := earliest_eq_false (Bool.not_eq_true _ ▸ hfirst)
      have hcov : q.Covers f.when := h f hf (hw.imp_right hle.trans)
      exact hcov.mono hle
    · exact h e hmem hw

theorem added_settimes {p : Addr} {tm : Timer} (now : Timestamp)
    (h : ∀ ts ∈ q.timerfd.settimes, Arms ts) :
    ∀ ts ∈ (q.added p tm now).timerfd.settimes, Arms ts := by
  unfold added
  split
  · exact resetTimerfd_settimes h _ _
  · exact h

/-- `reset` leaves every timer covered, if those at zero or below were covered before. -/
theorem rearmed_covered (clock : Timestamp)
    (h : ∀ e ∈ q.timers, e.when ≤ 0 → q.Covers e.when) :
    ∀ e ∈ (q.rearmed clock).timers, (q.rearmed clock).Covers e.when := by
  intro e he
  rw [rearmed_timers] at he
  unfold rearmed
  cases hf : q.timers.first with
  | none => exact absurd he (OrdSet.first_eq_none.mp hf e)
  | some it =>
      have hle : it.when ≤ e.when := Entry.le_when (OrdSet.first_le hf he)
      by_cases hv : it.when.valid = true
      · simp only [hv, if_true]
        exact ⟨it.when, rfl, hle⟩
      · -- not re-armed: what covers the first timer covers the others
        simp only [hv]
        have hnonpos : it.when ≤ 0 := by
          rw [Timestamp.valid, decide_eq_true_iff] at hv
          exact not_lt.mp hv
        exact (h it (OrdSet.first_mem hf) hnonpos).mono hle

theorem rearmed_settimes (clock : Timestamp)
    (h : ∀ ts ∈ q.timerfd.settimes, Arms ts) :
    ∀ ts ∈ (q.rearmed clock).timerfd.settimes, Arms ts := by
  unfold rearmed
  split
  · exact h
  · split
    · exact resetTimerfd_settimes h _ _
    · exact h

/-! ## Runs -/

/-- `handleRead` reads a positive clock. The clock that only `resetTimerfd` reads is free. -/
def PositiveClock (_ : State) : Action → Prop
  | .handleRead now => 0 < now
  | _ => True

theorem Armed.moves {a : Action} (h : Armed s) (hp : PositiveClock s a) (hm : Moves s a t) :
    Armed t := by
  cases hm with
  | newTimer hav => exact ⟨h.covered, h.now_pos, h.settimes⟩
  | @add timer now tm hu hpend ht =>
      exact ⟨added_covered (s := s) now h.covered, h.now_pos, added_settimes now h.settimes⟩
  | cancelActive hu hid ht =>
      refine ⟨?_, h.now_pos, h.settimes⟩
      intro e he hw
      exact h.covered e (OrdSet.mem_erase.mp he).1 hw
  | @cancelOther id hu hid =>
      obtain ⟨htimers, hfd, -⟩ := noted_timers s.queue id
      refine ⟨?_, h.now_pos, ?_⟩
      · intro e he hw
        have hcov := h.covered e (htimers ▸ he) hw
        unfold Covers at hcov ⊢
        rw [hfd]
        exact hcov
      · rw [hfd]
        exact h.settimes
  | @handleRead now q hb hwf hmem ht he =>
      refine ⟨?_, ?_, ?_⟩
      · -- whatever stays in the queue expires after `now`
        rintro e hin (hnone | hle)
        · cases hnone
        · exact absurd (((he e).mp hin).2.trans_le hle) (not_lt.mpr hp.le)
      · intro b hb'
        cases hb'
        exact hp
      · show ∀ ts ∈ q.timerfd.settimes, Arms ts
        rw [ht]
        exact h.settimes
  | @runCallback now expired rest it inCallback tm hb ht =>
      refine ⟨?_, ?_, h.settimes⟩
      · rintro e he (hnone | hle)
        · cases hnone
        · exact h.covered e he (Or.inr hle)
      · intro b hb'
        cases hb'
        have hpos := h.now_pos _ hb
        exact hpos
  | @finish now clock expired inCallback q hb hwf hs =>
      have hpos : 0 < now := h.now_pos _ hb
      have hcov : ∀ e ∈ q.timers, e.when ≤ 0 → q.Covers e.when := by
        intro e he hle
        rcases hs.timers e he with he | hlate
        · have hbefore := h.covered e he (Or.inr hle)
          unfold Covers at hbefore ⊢
          rw [hs.timerfd_eq]
          exact hbefore
        · exact absurd (hpos.trans_le hlate) (not_lt.mpr hle)
      refine ⟨fun e he _ => rearmed_covered clock hcov e he, ?_, ?_⟩
      · intro b hb'
        cases hb'
      · apply rearmed_settimes
        rw [hs.timerfd_eq]
        exact h.settimes

theorem reachable_armed (h : runs.Reachable PositiveClock s) : Inv s ∧ Armed s := by
  refine h.invariant (I := fun s => Inv s ∧ Armed s) ?_ ?_
  · rintro _ rfl
    exact ⟨inv_start, armed_start⟩
  · rintro u a v ⟨hinv, harmed⟩ hp hn
    have hm := next_moves hinv hn
    exact ⟨hinv.moves hm, harmed.moves hp hm⟩

/-- Outside `handleRead` the descriptor has been armed since it was last read, for a time not
later than any timer in the queue, and it was never given a value that disarms it. -/
theorem timerfd_armed (s : State) (h : runs.Reachable PositiveClock s) :
    (s.batch = none →
      ∀ e ∈ s.queue.timers, ∃ a, s.queue.timerfd.armed = some a ∧ a ≤ e.when) ∧
    ∀ ts ∈ s.queue.timerfd.settimes, Arms ts := by
  obtain ⟨-, harmed⟩ := reachable_armed h
  refine ⟨?_, harmed.settimes⟩
  intro hb e he
  exact harmed.covered e he (Or.inl hb)

/-- After the run `sample` the descriptor is armed for the timer that went back. -/
theorem timerfd_armed_sample : ∃ s, runs.Reachable PositiveClock s ∧
    s.queue.timers.elems = [⟨250, 8⟩] ∧ ∃ a, s.queue.timerfd.armed = some a ∧ a ≤ 250 := by
  have hpos : ∀ a ∈ sample, ∀ s, PositiveClock s a := by
    intro a ha s
    simp only [sample, List.mem_cons, List.not_mem_nil, or_false] at ha
    rcases ha with rfl | rfl | rfl | rfl | rfl | rfl | rfl | rfl | rfl <;>
      simp [PositiveClock]
  have hrun := (System.run_of_exec (rfl : runs.exec start sample = some (.ok _))).of_actions hpos
  have hreach : runs.Reachable PositiveClock _ := ⟨start, sample, rfl, hrun⟩
  refine ⟨_, hreach, rfl, ?_⟩
  exact (timerfd_armed _ hreach).1 rfl ⟨250, 8⟩ List.mem_cons_self

end Zing.Net.TimerQueue
