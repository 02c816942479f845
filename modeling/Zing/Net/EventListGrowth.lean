import Mathlib.Algebra.Group.Nat.Defs
import Zing.Net.EventDispatchSafe

set_option autoImplicit false

/-! # The growth of `events_`

`EPollPoller::poll` doubles `events_` when an answer of `epoll_wait` has filled it, and never
shrinks it. `events_growth` bounds its size by the channels that were registered at such an
answer; with it, how often a ready channel can be left out of one.
-/

namespace Zing.Net.EventDispatch

open Zing.Lib

variable {w w' : World} {channel : ChannelPtr}

/-- An answer that fills `events_`, by the number of channels that are registered then. -/
def filled (w : World) : Action → List Nat
  | .poll _ fds =>
      if w.phase = .condition ∧ fds.length = w.size then [w.poller.channels.keys.length] else []
  | _ => []

/-- No more descriptors are reported than channels are registered. -/
theorem Inv.length_le (hw : Inv w) {ready : Nat → Events} {fds : List Nat}
    (hres : w.poller.WaitResult w.size ready fds) :
    fds.length ≤ w.poller.channels.keys.length := by
  apply (List.subperm_of_subset hres.nodup ?_).length_le
  intro fd hfd
  obtain ⟨mask, channel, hint, -⟩ := EPollPoller.isReady_iff.mp (hres.sound fd hfd)
  obtain ⟨hreg, -⟩ := hw.registry.wf.entry hint
  exact AList.mem_keys.mp (AList.lookup_isSome.mp (by rw [hreg]; rfl))

/-- The user cannot change the size of `events_`, -/
theorem perform_size {op : UserOp} (hok : w.perform op = some (.ok w')) : w'.size = w.size := by
  cases op with
  | construct channel fd =>
      obtain ⟨-, hok⟩ := of_guard hok
      rw [Except.ok.injEq] at hok
      rw [← hok]
      rfl
  | destroy channel =>
      obtain ⟨-, hok⟩ := of_guard hok
      obtain ⟨_, -, hok⟩ := bind_eq_ok.mp hok
      obtain ⟨_, -, hok⟩ := bind_eq_ok.mp hok
      obtain ⟨_, -, hok⟩ := bind_eq_ok.mp hok
      rw [Except.ok.injEq] at hok
      rw [← hok]
  | tie channel =>
      obtain ⟨-, hok⟩ := of_guard hok
      rw [Except.ok.injEq] at hok
      rw [← hok]
      rfl
  | update u channel =>
      obtain ⟨-, hok⟩ := of_guard hok
      obtain ⟨r, -, hok⟩ := bind_eq_ok.mp hok
      rw [Except.ok.injEq] at hok
      rw [← hok]
  | remove channel =>
      obtain ⟨-, hok⟩ := of_guard hok
      obtain ⟨_, -, hok⟩ := bind_eq_ok.mp hok
      obtain ⟨_, -, hok⟩ := bind_eq_ok.mp hok
      obtain ⟨r, -, hok⟩ := bind_eq_ok.mp hok
      rw [Except.ok.injEq] at hok
      rw [← hok]

/-- nor can the call of a handler, -/
theorem dispatch_size {guard : Bool} {todo : List ChannelPtr}
    (hok : w.dispatch channel guard todo = .ok w') : w'.size = w.size := by
  obtain ⟨_, -, hok⟩ := bind_eq_ok.mp hok
  split at hok
  all_goals
    rw [Except.ok.injEq] at hok
    rw [← hok]

/-- nor its end. -/
theorem handled_size {todo : List ChannelPtr} (hok : w.handled todo = .ok w') :
    w'.size = w.size := by
  rw [World.handled] at hok
  split at hok
  · cases hok
  · obtain ⟨_, -, hok⟩ := bind_eq_ok.mp hok
    rw [Except.ok.injEq] at hok
    rw [← hok]

/-- `events_` is doubled by an answer that fills it, and is left alone by everything else. -/
theorem Inv.step_size (hw : Inv w) {a : Action} (hp : Polls w a) (hn : runs.Next w a w') :
    w'.size = w.size * 2 ^ (filled w a).length ∧ ∀ n ∈ filled w a, w.size ≤ n := by
  have hr : w.step a = some (.ok w') := hn
  -- what does not poll
  have hsame : filled w a = [] → w'.size = w.size →
      w'.size = w.size * 2 ^ (filled w a).length ∧ ∀ n ∈ filled w a, w.size ≤ n := by
    intro hfilled hsize
    rw [hfilled, List.length_nil, Nat.pow_zero, Nat.mul_one]
    exact ⟨hsize, fun n hmem => absurd hmem List.not_mem_nil⟩
  cases a with
  | poll ready fds =>
      obtain ⟨hphase, hr⟩ := of_guard hr
      obtain ⟨w'', hok, -, hsize, -⟩ := hw.poll hphase hp
      rw [hok, Except.ok.injEq] at hr
      subst hr
      by_cases hfull : fds.length = w.size
      · rw [filled, if_pos ⟨hphase, hfull⟩]
        refine ⟨?_, ?_⟩
        · rw [hsize, EPollPoller.sizeAfter, if_pos hfull, List.length_singleton, Nat.pow_one]
        · intro n hmem
          rw [List.mem_singleton.mp hmem, ← hfull]
          exact hw.length_le hp
      · apply hsame
        · rw [filled, if_neg fun hboth => hfull hboth.2]
        · rw [hsize, EPollPoller.sizeAfter, if_neg hfull]
  | pollError =>
      obtain ⟨hphase, hr⟩ := of_guard hr
      refine hsame rfl ?_
      obtain ⟨r, hpoll, hr⟩ := bind_eq_ok.mp hr
      rw [Except.ok.injEq] at hr
      rw [← hr]
      rw [nested_eq_ok] at hpoll
      rw [EPollPoller.poll, Except.ok.injEq] at hpoll
      rw [← hpoll]
  | next guard =>
      refine hsame rfl ?_
      rw [World.step] at hr
      split at hr
      · exact dispatch_size (Option.some.inj hr)
      · cases hr
  | callback =>
      refine hsame rfl ?_
      rw [World.step] at hr
      split at hr
      · obtain rfl := Except.ok.inj (Option.some.inj hr)
        rfl
      · cases hr
  | handled =>
      refine hsame rfl ?_
      rw [World.step] at hr
      split at hr
      · exact handled_size (Option.some.inj hr)
      · cases hr
  | user op => exact hsame rfl (perform_size (of_guard' hr).2)
  | _ =>
      obtain ⟨-, hr⟩ := of_guard hr
      obtain rfl := Except.ok.inj hr
      exact hsame rfl rfl

/-- `events_` has the size that the answers which filled it have led to, the last of them with
at least half as many channels registered. A ready channel is left out of such an answer only,
so this bounds how often that happens. -/
theorem events_growth {log : List Nat}
    (hr : (runs.logged filled).Reachable (fun s a => Polls s.1 a) (w, log)) :
    w.size = EPollPoller.kInitEventListSize * 2 ^ log.length ∧
      (∀ N, (∀ n ∈ log, n ≤ N) → w.size ≤ max EPollPoller.kInitEventListSize (2 * N)) ∧
      ∀ ready fds fd, Polls w (.poll ready fds) → w.poller.isReady ready fd = true → fd ∉ fds →
        fds.length = w.size := by
  have hinv : Inv w ∧ w.size = EPollPoller.kInitEventListSize * 2 ^ log.length ∧
      ∀ N, (∀ n ∈ log, n ≤ N) → w.size ≤ max EPollPoller.kInitEventListSize (2 * N) := by
    apply hr.invariant (I := fun s => Inv s.1 ∧
      s.1.size = EPollPoller.kInitEventListSize * 2 ^ s.2.length ∧
      ∀ N, (∀ n ∈ s.2, n ≤ N) → s.1.size ≤ max EPollPoller.kInitEventListSize (2 * N))
    · rintro ⟨w, log⟩ ⟨rfl, rfl⟩
      exact ⟨inv_new, rfl, fun N _ => Nat.le_max_left _ _⟩
    · rintro ⟨w, log⟩ a ⟨w', log'⟩ ⟨hw, hsize, hbound⟩ hp hn
      obtain ⟨hn, rfl⟩ := System.logged_next.mp hn
      obtain ⟨hgrow, hfull⟩ := hw.step_size hp hn
      refine ⟨hw.step hp hn, ?_, ?_⟩
      · show w'.size = _
        rw [hgrow, hsize, List.length_append, Nat.pow_add, Nat.mul_assoc]
      · intro N hN
        show w'.size ≤ _
        have hlog := hbound N fun n hmem => hN n (List.mem_append_left _ hmem)
        -- only a step that fills `events_` adds to the record, and then it was not above `N`
        cases hfilled : filled w a with
        | nil =>
            rw [hgrow, hfilled, List.length_nil, Nat.pow_zero, Nat.mul_one]
            exact hlog
        | cons n rest =>
            have hone : (filled w a).length ≤ 1 := by
              unfold filled
              split
              · split <;> simp
              · simp
            have hmem : n ∈ filled w a := by
              rw [hfilled]
              exact List.mem_cons_self
            have hle := (hfull n hmem).trans (hN n (List.mem_append_right _ hmem))
            have hlen : (filled w a).length = 1 := by
              rw [hfilled, List.length_cons] at hone ⊢
              omega
            rw [hgrow, hlen, Nat.pow_one]
            omega
  refine ⟨hinv.2.1, hinv.2.2, ?_⟩
  intro ready fds fd hp hready hnot
  -- an answer that is shorter than `events_` has every ready channel in it
  have hres : w.poller.WaitResult w.size ready fds := hp
  by_contra hne
  have hlt : fds.length < w.size := lt_of_le_of_ne hres.fits hne
  exact hnot (hres.complete hlt fd hready)

/-- Seventeen channels start to read. -/
def seventeen : List Action :=
  ((List.range 17).map fun a => .user (.construct a (a + 5))) ++
    (List.range 17).map (fun a => .user (.update .enableReading a)) ++ [.enter]

/-- All of them are ready. The answer has room for sixteen, and `events_` doubles. -/
theorem events_growth_sample : ∃ (w : World) (log : List Nat),
    (runs.logged filled).Reachable (fun s a => Polls s.1 a) (w, log) ∧
      w.activeChannels = List.range 16 ∧ log = [17] ∧ w.size = 16 * 2 ^ 1 ∧
      w.size ≤ max 16 (2 * 17) := by
  have hstart : ∃ s, (runs.logged filled).exec (World.new, []) seventeen = some (.ok s) ∧
      s.1.size = 16 ∧ (∀ fd ∈ List.range' 5 16,
        s.1.poller.isReady (fun _ => { pollIn := true }) fd = true) ∧
      ∃ t, (runs.logged filled).Next s
          (.poll (fun _ => { pollIn := true }) (List.range' 5 16)) t ∧
        t.1.activeChannels = List.range 16 ∧ t.2 = [17] :=
    ⟨_, rfl, rfl, by decide, _, rfl, rfl, rfl⟩
  obtain ⟨s, hexec, hsize, hready, t, hnext, hactive, hlog⟩ := hstart
  have hrun : (runs.logged filled).Run (fun s a => Polls s.1 a) (World.new, []) seventeen s := by
    apply (System.run_of_exec hexec).of_actions
    intro a ha u
    simp only [seventeen, List.mem_append, List.mem_map, List.mem_singleton] at ha
    rcases ha with (⟨_, -, rfl⟩ | ⟨_, -, rfl⟩) | rfl <;> trivial
  have hpolls : Polls s.1 (.poll (fun _ => { pollIn := true }) (List.range' 5 16)) := by
    show s.1.poller.WaitResult s.1.size _ _
    rw [hsize]
    exact ⟨by decide, by decide, hready, fun hlt => absurd hlt (by decide)⟩
  have hfull := System.Run.snoc (P := fun s a => Polls s.1 a) hrun hpolls hnext
  have hreach : (runs.logged filled).Reachable (fun s a => Polls s.1 a) (t.1, t.2) :=
    ⟨(World.new, []), _, ⟨rfl, rfl⟩, hfull⟩
  have hgrowth := events_growth hreach
  refine ⟨t.1, t.2, hreach, hactive, hlog, ?_, hgrowth.2.1 17 ?_⟩
  · rw [hgrowth.1, hlog]
    rfl
  · intro n hn
    rw [hlog] at hn
    exact Nat.le_of_eq (List.mem_singleton.mp hn)

end Zing.Net.EventDispatch
