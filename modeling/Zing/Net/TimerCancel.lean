import Zing.Net.TimerRuns

set_option autoImplicit false

/-! # Cancelling a timer

`handleRead` runs the callbacks of the whole batch without a look at `cancelingTimers_`, which
only `reset` consults. So a cancel that comes from a callback of the batch does not stop a
timer whose turn in the same batch is still to come. `cancellation_effective_iff` shows that
this is the only way for a cancelled timer to start: in all other cases `Spent` holds after
the cancel, and it holds for ever.
-/

namespace Zing.Net.TimerQueue

open Zing.Lib

/-- The timer is in the batch being run, and its callback has not started yet. -/
def State.InRest (s : State) (id : TimerId) : Prop :=
  s.queue.memory.Live id ∧ ∃ b, s.batch = some b ∧ id.timer ∈ b.rest.map Entry.timer

/-- No run from `s` starts the callback of the timer. -/
def NeverStarts (s : State) (id : TimerId) : Prop :=
  ∀ as t, runs.Run System.always s as t →
    ∃ later, t.started = s.started ++ later ∧ id ∉ later

/-- The timer has been deleted, or `reset` will delete it and its callback has had its turn. -/
structure Spent (s : State) (id : TimerId) : Prop where
  sequence_le : id.sequence ≤ s.queue.memory.numCreated
  canceling : s.queue.memory.Live id → id ∈ s.queue.cancelingTimers
  batch : s.queue.memory.Live id → ∃ b, s.batch = some b ∧
    id.timer ∈ b.expired.map Entry.timer ∧ id.timer ∉ b.rest.map Entry.timer

variable {s t : State} {id : TimerId}

theorem Spent.not_inRest (h : Spent s id) : ¬ s.InRest id := by
  rintro ⟨hl, b, hb, hrest⟩
  obtain ⟨b', hb', -, hnot⟩ := h.batch hl
  rw [hb, Option.some.injEq] at hb'
  exact hnot (hb' ▸ hrest)

theorem Inv.sequence_le (h : Inv s) (hid : id ∈ s.added) :
    id.sequence ≤ s.queue.memory.numCreated := by
  rcases h.added id hid with hdel | ⟨⟨t, ht, hs⟩, -⟩
  · exact h.wf.memory.deleted_le id hdel
  · rw [← hs]
    exact h.wf.memory.sequence_le _ t ht

/-! ## The cancel -/

/-- After a cancel the timer is spent, unless its turn in the batch is still to come. -/
theorem spent_of_cancel (h : Inv s) (hid : id ∈ s.added)
    (hm : Moves s (.cancelInLoop id) t) (hrest : ¬ s.InRest id) : Spent t id := by
  have hle := h.sequence_le hid
  cases hm with
  | @cancelActive _ tm hu hact ht =>
      have hgone : ¬ (s.queue.memory.remove id.timer tm).Live id := by
        intro hl
        exact ((Memory.live_remove tm id).mp hl).2 rfl
      exact ⟨hle, fun hl => absurd hl hgone, fun hl => absurd hl hgone⟩
  | cancelOther hu hact =>
      -- a live timer that is not in the sets is in the batch
      have hbatch : s.queue.memory.Live id → s.InBatch id := by
        intro hl
        rcases h.one_place hid with hw | hb | hf
        · exact absurd hw.1.2.1 hact
        · exact hb.2.1
        · exact absurd hl (h.wf.memory.deleted_not_live id hf.2.2)
      refine ⟨by rw [noted_memory]; exact hle, ?_, ?_⟩
      · rw [noted_memory]
        intro hl
        obtain ⟨-, hb⟩ := hbatch hl
        have hcalling : s.queue.callingExpiredTimers = true := by
          rw [h.calling]
          cases hs : s.batch with
          | none => simp [State.batchTimers, hs] at hb
          | some b => rfl
        show id ∈ (s.queue.noted id).cancelingTimers
        rw [noted, if_pos hcalling]
        exact OrdSet.mem_insert.mpr (Or.inl rfl)
      · rw [noted_memory]
        intro hl
        obtain ⟨-, hb⟩ := hbatch hl
        cases hs : s.batch with
        | none => simp [State.batchTimers, hs] at hb
        | some b =>
            rw [State.batchTimers, hs] at hb
            exact ⟨b, rfl, hb, fun hr => hrest ⟨hl, b, hs, hr⟩⟩

/-! ## Afterwards -/

/-- A spent timer stays spent, and its callback is not the one that starts. -/
theorem Spent.moves {a : Action} (hsp : Spent s id) (hm : Moves s a t) :
    Spent t id ∧ ∃ later, t.started = s.started ++ later ∧ id ∉ later := by
  cases hm with
  | @newTimer p when interval hp =>
      have hold : (s.queue.memory.new p when interval).Live id → s.queue.memory.Live id := by
        intro hl
        rcases (Memory.live_new when interval hp.2.2 id).mp hl with hl | rfl
        · exact hl
        · exact absurd hsp.sequence_le (Nat.not_succ_le_self _)
      refine ⟨⟨hsp.sequence_le.trans (Nat.le_succ _), ?_, ?_⟩, [], by simp, by simp⟩
      · exact fun hl => hsp.canceling (hold hl)
      · exact fun hl => hsp.batch (hold hl)
  | @add timer now tm hu hp ht =>
      refine ⟨?_, [], by simp [State.handed], by simp⟩
      rw [State.handed]
      refine ⟨by rw [added_memory]; exact hsp.sequence_le, ?_, ?_⟩
      · rw [added_memory, (added_flags now).2]
        exact hsp.canceling
      · rw [added_memory]
        exact hsp.batch
  | @cancelActive id' tm hu hact ht =>
      refine ⟨⟨hsp.sequence_le, ?_, ?_⟩, [], by simp, by simp⟩
      · exact fun hl => hsp.canceling ((Memory.live_remove tm id).mp hl).1
      · exact fun hl => hsp.batch ((Memory.live_remove tm id).mp hl).1
  | @cancelOther id' hu hact =>
      refine ⟨⟨by rw [noted_memory]; exact hsp.sequence_le, ?_, ?_⟩, [], by simp, by simp⟩
      · rw [noted_memory]
        intro hl
        have hmem := hsp.canceling hl
        show id ∈ (s.queue.noted id').cancelingTimers
        unfold noted
        split
        · exact OrdSet.mem_insert.mpr (Or.inr hmem)
        · exact hmem
      · rw [noted_memory]
        exact hsp.batch
  | @handleRead now q hb hwf hmem ht he =>
      -- outside `handleRead` a spent timer is deleted
      have hgone : ¬ s.queue.memory.Live id := by
        intro hl
        obtain ⟨b, hb', -⟩ := hsp.batch hl
        rw [hb] at hb'
        cases hb'
      refine ⟨⟨by rw [hmem]; exact hsp.sequence_le, ?_, ?_⟩, [], by simp, by simp⟩
      · rw [hmem]
        exact fun hl => absurd hl hgone
      · rw [hmem]
        exact fun hl => absurd hl hgone
  | @runCallback now expired rest it inCallback tm hb ht =>
      refine ⟨⟨hsp.sequence_le, hsp.canceling, ?_⟩, [⟨it.timer, tm.sequence⟩], rfl, ?_⟩
      · intro hl
        obtain ⟨b, hb', hexp, hrest⟩ := hsp.batch hl
        rw [hb, Option.some.injEq] at hb'
        subst hb'
        exact ⟨_, rfl, hexp, fun hr => hrest (List.mem_cons_of_mem _ hr)⟩
      · intro hmem
        have heq := List.mem_singleton.mp hmem
        refine hsp.not_inRest ⟨⟨tm, ?_, ?_⟩, _, hb, ?_⟩
        · rw [heq]
          exact ht
        · rw [heq]
        · rw [heq]
          exact List.mem_cons_self
  | @finish now clock expired inCallback q hb hwf hs =>
      have hgone : ¬ q.memory.Live id := by
        intro hl
        have hbefore : s.queue.memory.Live id := hs.later.live_before id hl
        obtain ⟨b, hb', hexp, -⟩ := hsp.batch hbefore
        rw [hb, Option.some.injEq] at hb'
        subst hb'
        exact hs.canceled id (hsp.canceling hbefore) hexp hl
      refine ⟨⟨?_, ?_, ?_⟩, [], by simp, by simp⟩
      · rw [rearmed_memory, hs.later.numCreated_eq]
        exact hsp.sequence_le
      · rw [rearmed_memory]
        exact fun hl => absurd hl hgone
      · rw [rearmed_memory]
        exact fun hl => absurd hl hgone

/-- A spent timer does not start in any run. -/
theorem Spent.neverStarts (h : Inv s) (hsp : Spent s id) : NeverStarts s id := by
  intro as t hrun
  have hall : Inv t ∧ Spent t id ∧ ∃ later, t.started = s.started ++ later ∧ id ∉ later := by
    refine hrun.invariant (I := fun u => Inv u ∧ Spent u id ∧
      ∃ later, u.started = s.started ++ later ∧ id ∉ later) ?_ ⟨h, hsp, [], by simp, by simp⟩
    rintro u a v ⟨hu, hspu, later, hlater, hnot⟩ - hn
    have hm := next_moves hu hn
    obtain ⟨hspv, more, hmore, hnot'⟩ := hspu.moves hm
    refine ⟨hu.moves hm, hspv, later ++ more, ?_, ?_⟩
    · rw [hmore, hlater, List.append_assoc]
    · rw [List.mem_append, not_or]
      exact ⟨hnot, hnot'⟩
  exact hall.2.2

/-! ## A turn still to come -/

/-- The callbacks of the rest of the batch run one after the other, and start the timer. -/
theorem starts_of_rest {now : Timestamp} {expired rest : List Entry} {inCallback : Bool}
    (h : Inv s)
    (hb : s.batch = some
      { now := now, expired := expired, rest := rest, inCallback := inCallback })
    (hl : s.queue.memory.Live id) (hid : id.timer ∈ rest.map Entry.timer) :
    ∃ as t later, runs.Run (fun _ a => a = .runCallback) s as t ∧
      t.started = s.started ++ later ∧ id ∈ later := by
  induction rest generalizing s inCallback with
  | nil => cases hid
  | cons it rest ih =>
      have hmem : it ∈ expired := (h.rest _ hb).subset List.mem_cons_self
      obtain ⟨tm, ht⟩ := (h.wf_batch hb).outside_live it.timer
        (List.mem_append_left _ (List.mem_map_of_mem hmem))
      let u : State :=
        { s with
          batch := some { now := now, expired := expired, rest := rest, inCallback := true }
          started := s.started ++ [⟨it.timer, tm.sequence⟩] }
      have hn : runs.Next s .runCallback u := by
        show step s .runCallback = some (.ok u)
        simp only [step, hb, deref_eq ht, ok_bind]
        rfl
      have hu : Inv u := h.moves (Moves.runCallback hb ht)
      rcases List.mem_cons.mp hid with heq | hid
      · refine ⟨[.runCallback], u, _, System.Run.single rfl hn, rfl, ?_⟩
        obtain ⟨tm', ht', hs⟩ := hl
        rw [heq, ht, Option.some.injEq] at ht'
        subst ht'
        obtain ⟨p, n⟩ := id
        simp_all
      · obtain ⟨as, v, later, hrun, hstarted, hin⟩ := ih hu rfl hl hid
        refine ⟨.runCallback :: as, v, [⟨it.timer, tm.sequence⟩] ++ later, hrun.cons rfl hn,
          ?_, List.mem_append_right _ hin⟩
        rw [hstarted, List.append_assoc]

/-- A timer that is cancelled never starts again, exactly if it is not in the batch being run
with its turn still to come. -/
theorem cancellation_effective_iff (s s' : State) (id : TimerId)
    (h : runs.Reachable System.always s) (hid : id ∈ s.added)
    (hc : runs.Next s (.cancelInLoop id) s') : NeverStarts s' id ↔ ¬ s.InRest id := by
  have hinv := reachable_inv h
  have hm := next_moves hinv hc
  constructor
  · rintro hnever ⟨hl, b, hb, hrest⟩
    -- the cancel leaves the batch and the memory as they are
    have hsame : s'.batch = s.batch ∧ s'.queue.memory = s.queue.memory := by
      cases hm with
      | cancelActive hu hact ht =>
          obtain ⟨-, e, he, heq⟩ := (hinv.wf.active id).mp hact
          have hout : id.timer ∈ s.pending ++ s.batchTimers := by
            rw [State.batchTimers, hb]
            exact List.mem_append_right _ (((hinv.rest b hb).map _).subset hrest)
          exact absurd heq (hinv.wf.outside_notMem _ hout e he)
      | cancelOther hu hact => exact ⟨rfl, noted_memory⟩
    obtain ⟨as, t, later, hrun, hstarted, hin⟩ :=
      starts_of_rest (hinv.moves hm) (hsame.1.trans hb) (hsame.2 ▸ hl) hrest
    obtain ⟨later', hstarted', hnot⟩ := hnever as t (hrun.weaken fun _ _ _ => trivial)
    rw [hstarted, List.append_cancel_left_eq] at hstarted'
    exact hnot (hstarted' ▸ hin)
  · intro hrest
    exact (spent_of_cancel hinv hid hm hrest).neverStarts (hinv.moves hm)

/-- In the run `sample` the first timer cancels itself instead: it does not start again. -/
theorem cancellation_effective_sample : ∃ s s', runs.Run System.always start (sample.take 6) s ∧
    runs.Next s (.cancelInLoop ⟨8, 1⟩) s' ∧ NeverStarts s' ⟨8, 1⟩ := by
  have hrun := System.run_of_exec (rfl : runs.exec start (sample.take 6) = some (.ok _))
  refine ⟨_, _, hrun, rfl, ?_⟩
  refine (cancellation_effective_iff _ _ ⟨8, 1⟩ ⟨start, _, rfl, hrun⟩ List.mem_cons_self
    rfl).mpr ?_
  rintro ⟨-, b, hb, hmem⟩
  cases hb
  revert hmem
  decide

/-- In the run `sample` the second timer starts after it was cancelled. -/
theorem cancelled_timer_starts : ¬ ∀ s s' id, runs.Reachable System.always s → id ∈ s.added →
    runs.Next s (.cancelInLoop id) s' → NeverStarts s' id := by
  intro hall
  have hrun := System.run_of_exec (rfl : runs.exec start (sample.take 6) = some (.ok _))
  have hadded : (⟨16, 2⟩ : TimerId) ∈ [(⟨8, 1⟩ : TimerId), ⟨16, 2⟩] := by decide
  have hnever := hall _ _ ⟨16, 2⟩ ⟨start, _, rfl, hrun⟩ hadded rfl
  obtain ⟨later, hlater, hnot⟩ := hnever [.runCallback] _ (System.run_of_exec rfl)
  have hstarted : [(⟨8, 1⟩ : TimerId), ⟨16, 2⟩] = [⟨8, 1⟩] ++ later := hlater
  rw [List.singleton_append, List.cons.injEq] at hstarted
  rw [← hstarted.2] at hnot
  exact hnot List.mem_cons_self

end Zing.Net.TimerQueue
