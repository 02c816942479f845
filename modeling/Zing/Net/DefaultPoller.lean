import Zing.Net.EPollPoller
import Zing.Net.PollPoller

set_option autoImplicit false

/-! # The poller of a loop

A loop uses the poller that `newDefaultPoller` has made, through the virtual functions of
`Poller`. What the two pollers promise to the owner of a channel is the same, and is stated
here for both: `updateChannel` on a new or registered channel and `removeChannel` on a
registered channel that was disabled fail no assertion, and leave the other channels alone.
-/

namespace Zing.Net

open Zing.Lib

/-- A `Poller *`. -/
inductive Poller
  | epoll (p : EPollPoller)
  | poll (p : PollPoller)

namespace Poller

/-- `usePoll` says that the environment variable `ZING_USE_POLL` is set. -/
def newDefaultPoller (usePoll : Bool) : Poller :=
  if usePoll = true then .poll PollPoller.new else .epoll EPollPoller.new

/-- `channels_`, the map that both pollers inherit. -/
def channels : Poller → ChannelMap
  | epoll p => p.channels
  | poll p => p.channels

/-- The virtual call of `updateChannel`. -/
def updateChannel (p : Poller) (channel : ChannelPtr) (h : Channels) :
    Except Assertion (Poller × Channels) :=
  match p with
  | epoll q => (q.updateChannel channel h).map fun r => (epoll r.1, r.2)
  | poll q => (q.updateChannel channel h).map fun r => (poll r.1, r.2)

/-- The virtual call of `removeChannel`. -/
def removeChannel (p : Poller) (channel : ChannelPtr) (h : Channels) :
    Except Assertion (Poller × Channels) :=
  match p with
  | epoll q => (q.removeChannel channel h).map fun r => (epoll r.1, r.2)
  | poll q => (q.removeChannel channel h).map fun r => (poll r.1, r.2)

/-- `hasChannel`, which only the base class defines. -/
def hasChannel (p : Poller) (channel : ChannelPtr) (h : Channels) : Bool :=
  p.channels.lookup (h channel).fd = some channel

/-- The descriptors that the kernel is asked to watch. -/
def watches : Poller → Nat → Bool
  | epoll p => p.watches
  | poll p => p.watches

/-- The invariant of the poller that it is. -/
def WF (p : Poller) (h : Channels) : Prop :=
  match p with
  | epoll q => q.WF h
  | poll q => q.WF h

/-- The poller is ready for `removeChannel` on a registered channel that watches nothing. -/
def Disabled (p : Poller) (h : Channels) (channel : ChannelPtr) : Prop :=
  match p with
  | epoll _ => True
  | poll q => q.Disabled h channel

/-- The channel is new to the poller. -/
def Fresh (p : Poller) (h : Channels) (channel : ChannelPtr) : Prop :=
  p.channels.lookup (h channel).fd = none ∧ (h channel).index = -1

/-- The channel is in the map, under its own descriptor. -/
def Registered (p : Poller) (h : Channels) (channel : ChannelPtr) : Prop :=
  p.channels.lookup (h channel).fd = some channel

theorem hasChannel_iff {p : Poller} {h : Channels} {channel : ChannelPtr} :
    p.hasChannel channel h = true ↔ p.Registered h channel := decide_eq_true_iff

/-- A new poller has no channel, whichever it is. -/
theorem newDefaultPoller_wf (usePoll : Bool) (h : Channels) : (newDefaultPoller usePoll).WF h := by
  cases usePoll with
  | false => exact EPollPoller.new_wf h
  | true => exact PollPoller.new_wf h

variable {p : Poller} {h h' : Channels} {channel : ChannelPtr}

/-- Nothing but the descriptor, the index and the events of a channel matters to a poller. -/
theorem WF.agrees (hwf : p.WF h) (ha : Agrees h h') : p.WF h' := by
  cases p with
  | epoll q => exact EPollPoller.WF.agrees hwf ha
  | poll q => exact PollPoller.WF.agrees hwf ha

theorem Disabled.agrees (hd : p.Disabled h channel) (ha : Agrees h h') :
    p.Disabled h' channel := by
  cases p with
  | epoll q => trivial
  | poll q => exact PollPoller.Disabled.agrees hd ha

theorem Registered.agrees (hr : p.Registered h channel) (ha : Agrees h h') :
    p.Registered h' channel := by
  rw [Registered, (ha channel).1]
  exact hr

theorem Fresh.agrees (hf : p.Fresh h channel) (ha : Agrees h h') : p.Fresh h' channel := by
  rw [Fresh, (ha channel).1, (ha channel).2.1]
  exact hf

/-- `updateChannel` on a new or a registered channel, called after the object of the channel
has become `c`. -/
theorem updateChannel_spec (hwf : p.WF h) (hcan : p.Fresh h channel ∨ p.Registered h channel)
    {c : Channel} (hfd : c.fd = (h channel).fd) (hidx : c.index = (h channel).index) :
    ∃ p' h', p.updateChannel channel (Function.update h channel c) = .ok (p', h') ∧ p'.WF h' ∧
      Updates p.channels p'.channels h h' channel c ∧
      (∀ b, b ≠ channel → p.Registered h b → p.Disabled h b → p'.Disabled h' b) ∧
      (p.Registered h channel → c.isNoneEvent = true → p'.Disabled h' channel) := by
  cases p with
  | epoll q =>
      obtain ⟨q', h', hok, hwf', hup⟩ := EPollPoller.updateChannel_spec hwf hcan hfd hidx
      refine ⟨.epoll q', h', ?_, hwf', hup, fun _ _ _ _ => trivial, fun _ _ => trivial⟩
      rw [updateChannel, hok]
      rfl
  | poll q =>
      rcases hcan with ⟨hnone, hnew⟩ | hreg
      · have hneg : (h channel).index < 0 := by
          rw [hnew]
          decide
        obtain ⟨q', h', hok, hwf', hup, hslot, -⟩ :=
          PollPoller.updateChannel_new hwf hnone hneg hfd hidx
        refine ⟨.poll q', h', ?_, hwf', hup, ?_, ?_⟩
        · rw [updateChannel, hok]
          rfl
        · intro b hb _ hdis
          exact PollPoller.Disabled.of_slots hdis (fun x => hslot b x hb) (by rw [hup.others b hb])
        · intro hreg
          rw [Registered] at hreg
          rw [hnone] at hreg
          cases hreg
      · obtain ⟨q', h', hok, hwf', hup, hslot, hself⟩ :=
          PollPoller.updateChannel_registered hwf hreg hfd hidx
        refine ⟨.poll q', h', ?_, hwf', hup, ?_, ?_⟩
        · rw [updateChannel, hok]
          rfl
        · intro b hb hregb hdis
          exact PollPoller.Disabled.of_slots hdis (fun x => hslot b x hb hregb)
            (by rw [hup.others b hb])
        · intro _ hn
          obtain ⟨k, hk⟩ := hup.self
          refine PollPoller.disabled_iff.mpr ⟨_, hself, ?_⟩
          rw [hk]
          exact if_pos hn

/-- `removeChannel` on a registered channel that was disabled. -/
theorem removeChannel_spec (hwf : p.WF h) (hreg : p.Registered h channel)
    (hnone : (h channel).isNoneEvent = true) (hdis : p.Disabled h channel) :
    ∃ p' h', p.removeChannel channel h = .ok (p', h') ∧ p'.WF h' ∧
      Removes p.channels p'.channels h h' channel ∧
      ∀ b, b ≠ channel → p.Registered h b → p.Disabled h b → p'.Disabled h' b := by
  cases p with
  | epoll q =>
      obtain ⟨q', h', hok, hwf', hrem⟩ := EPollPoller.removeChannel_spec hwf ⟨hreg, hnone⟩
      refine ⟨.epoll q', h', ?_, hwf', hrem, fun _ _ _ _ => trivial⟩
      rw [removeChannel, hok]
      rfl
  | poll q =>
      obtain ⟨q', h', hok, hwf', hrem, hkeep⟩ :=
        PollPoller.removeChannel_spec hwf ⟨hreg, hnone, hdis⟩
      refine ⟨.poll q', h', ?_, hwf', hrem, ?_⟩
      · rw [removeChannel, hok]
        rfl
      · intro b hb hregb hdisb
        obtain ⟨k, hk⟩ := hrem.same b
        exact PollPoller.Disabled.of_slots hdisb (fun x => hkeep b x hb hregb) (by rw [hk])

/-- The assertions of `removeChannel` hold of such channels only. -/
theorem removeChannel_ok {r : Poller × Channels} (hr : p.removeChannel channel h = .ok r) :
    p.Registered h channel ∧ (h channel).isNoneEvent = true ∧ p.Disabled h channel := by
  cases p with
  | epoll q =>
      obtain ⟨r', hq, -⟩ := map_eq_ok.mp hr
      obtain ⟨hreg, hnone⟩ := EPollPoller.canRemove_of_ok hq
      exact ⟨hreg, hnone, trivial⟩
  | poll q =>
      obtain ⟨r', hq, -⟩ := map_eq_ok.mp hr
      exact PollPoller.canRemove_of_ok hq

/-- A removal does nothing to the other channels that are not registered. -/
theorem removeChannel_unregistered (hwf : p.WF h) {r : Poller × Channels}
    (hr : p.removeChannel channel h = .ok r) {b : ChannelPtr} (hb : b ≠ channel)
    (hnone : ¬ p.Registered h b) : r.2 b = h b := by
  obtain ⟨hreg, hn, -⟩ := removeChannel_ok hr
  cases p with
  | epoll q =>
      obtain ⟨q', hok, -⟩ := EPollPoller.removeChannel_eq hwf ⟨hreg, hn⟩
      rw [removeChannel, hok] at hr
      cases hr
      exact setIndex_of_ne _ hb
  | poll q =>
      obtain ⟨r', hq, rfl⟩ := map_eq_ok.mp hr
      exact PollPoller.removeChannel_others hwf hq (Or.inr hnone)

/-! ## What the kernel watches -/

/-- An update without events takes the descriptor away from the kernel: with `EPollPoller` one
that the kernel watches, with `PollPoller` that of a registered channel. -/
def drops : Poller → Nat → Bool
  | epoll q, fd => q.watches fd
  | poll q, fd => (q.channels.lookup fd).isSome

/-- The kernel looks at a channel while its index is `kAdded`. -/
theorem epoll_watches_iff {q : EPollPoller} (hwf : q.WF h)
    (hcan : q.CanUpdate h channel) :
    q.watches (h channel).fd = true ↔ (h channel).index = EPollPoller.kAdded := by
  rw [EPollPoller.watches, Option.isSome_iff_ne_none]
  rcases hcan with ⟨hnone, hnew⟩ | hreg
  · rw [hwf.unregistered _ hnone, hnew]
    exact ⟨fun hne => absurd rfl hne, fun heq => absurd heq (by decide)⟩
  · rcases hwf.index _ _ hreg with hadd | hdel
    · rw [hwf.added _ _ hreg hadd]
      exact ⟨fun _ => hadd, fun _ => Option.some_ne_none _⟩
    · rw [hwf.deleted _ _ hreg hdel, hdel]
      exact ⟨fun hne => absurd rfl hne, fun heq => absurd heq (by decide)⟩

/-- Behind an update `epoll` looks at the channel unless it had it and it has no events left. A
channel without events that it did not have it takes up. -/
theorem epoll_updateChannel_watches {q q' : EPollPoller} {h' : Channels} (hwf : q.WF h)
    (hcan : q.CanUpdate h channel) {c : Channel} (hfd : c.fd = (h channel).fd)
    (hidx : c.index = (h channel).index)
    (hr : q.updateChannel channel (Function.update h channel c) = .ok (q', h')) :
    q'.watches c.fd = !(c.isNoneEvent && q.watches c.fd) := by
  obtain ⟨p', hok, -, hinterest, -⟩ := EPollPoller.updateChannel_eq hwf hcan hfd hidx
  rw [hok] at hr
  cases hr
  have hadded := epoll_watches_iff hwf hcan
  rw [← hidx, ← hfd] at hadded
  rw [EPollPoller.watches, hinterest, Function.update_self]
  by_cases hoff : c.index = EPollPoller.kAdded ∧ c.isNoneEvent = true
  · rw [(EPollPoller.after_off channel hoff).2, hoff.2, hadded.mpr hoff.1]
    rfl
  · rw [(EPollPoller.after_on channel hoff).2]
    cases hn : c.isNoneEvent with
    | false => rfl
    | true =>
        have hnot : q.watches c.fd = false :=
          Bool.eq_false_iff.mpr fun hw => hoff ⟨hadded.mp hw, hn⟩
        rw [hnot]
        rfl

/-- Behind an update, whether `poll` looks at a channel is up to its slot. -/
theorem poll_updated_watches {q q' : PollPoller} {h' : Channels} {c : Channel} {pfd : PollFd}
    (hwf : q'.WF h') (hup : Updates q.channels q'.channels h h' channel c)
    (hslot : q'.Slot h' channel pfd) : q'.watches c.fd = true ↔ pfd.fd = c.fd := by
  obtain ⟨k, hk⟩ := hup.self
  have hfd : (h' channel).fd = c.fd := by rw [hk]
  have hreg : q'.channels.lookup (h' channel).fd = some channel := by
    rw [hfd, hup.lookup, if_pos rfl]
  have hiff := hwf.watches_iff hreg hslot
  rw [hfd] at hiff
  exact hiff

/-- Behind an update `poll` looks at the channel unless it was registered and has no events
left. -/
theorem poll_updateChannel_watches {q q' : PollPoller} {h' : Channels} (hwf : q.WF h)
    (hcan : q.CanUpdate h channel) {c : Channel} (hfd : c.fd = (h channel).fd)
    (hidx : c.index = (h channel).index)
    (hr : q.updateChannel channel (Function.update h channel c) = .ok (q', h')) :
    q'.watches c.fd = !(c.isNoneEvent && (q.channels.lookup c.fd).isSome) := by
  rcases hcan with ⟨hnone, hneg⟩ | hreg
  · -- the slot of a new channel is never negative
    obtain ⟨p', o, hok, hwf', hup, -, hslot⟩ :=
      PollPoller.updateChannel_new hwf hnone hneg hfd hidx
    rw [hok] at hr
    cases hr
    rw [hfd, hnone, ← hfd, (poll_updated_watches hwf' hup hslot).mpr rfl, Option.isSome_none,
      Bool.and_false]
    rfl
  · obtain ⟨p', o, hok, hwf', hup, -, hslot⟩ :=
      PollPoller.updateChannel_registered hwf hreg hfd hidx
    rw [hok] at hr
    cases hr
    rw [hfd, hreg, ← hfd, Option.isSome_some, Bool.and_true, Bool.eq_iff_iff,
      poll_updated_watches hwf' hup hslot]
    cases hn : c.isNoneEvent with
    | false => simp
    | true =>
        simp only [if_true, Bool.not_true, Bool.false_eq_true, iff_false]
        omega

/-- A channel is watched behind an update, unless it has no events and the update takes it
away. -/
theorem updateChannel_watches (hwf : p.WF h)
    (hcan : p.Fresh h channel ∨ p.Registered h channel) {c : Channel}
    (hfd : c.fd = (h channel).fd) (hidx : c.index = (h channel).index)
    {r : Poller × Channels}
    (hr : p.updateChannel channel (Function.update h channel c) = .ok r) :
    r.1.watches c.fd = !(c.isNoneEvent && p.drops c.fd) := by
  cases p with
  | epoll q =>
      obtain ⟨r', hq, rfl⟩ := map_eq_ok.mp hr
      exact epoll_updateChannel_watches hwf hcan hfd hidx hq
  | poll q =>
      obtain ⟨r', hq, rfl⟩ := map_eq_ok.mp hr
      refine poll_updateChannel_watches hwf ?_ hfd hidx hq
      rcases hcan with ⟨hnone, hnew⟩ | hreg
      · refine Or.inl ⟨hnone, ?_⟩
        rw [hnew]
        decide
      · exact Or.inr hreg

/-- The kernel watches registered channels only. -/
theorem watches_unregistered (hwf : p.WF h) {fd : Nat} (hnone : p.channels.lookup fd = none) :
    p.watches fd = false := by
  cases p with
  | epoll q =>
      have hwf : q.WF h := hwf
      show (q.interest fd).isSome = false
      rw [hwf.unregistered fd hnone]
      rfl
  | poll q =>
      have hwf : q.WF h := hwf
      apply Bool.eq_false_iff.mpr
      intro hw
      obtain ⟨pfd, hmem, hfd⟩ := List.any_eq_true.mp hw
      have hfd : pfd.fd = fd := of_decide_eq_true hfd
      obtain ⟨i, hi⟩ := List.mem_iff_getElem?.mp hmem
      obtain ⟨a, ha, -⟩ := hwf.owner i pfd hi
      have hfdOf : PollPoller.fdOf pfd.fd = fd := by
        rw [PollPoller.fdOf, if_neg (by omega)]
        omega
      have hnone : q.channels.lookup fd = none := hnone
      rw [hfdOf, hnone] at ha
      cases ha

/-- What keeps the slot of a channel keeps it watched, or not watched. -/
theorem watches_of_slots {q q' : PollPoller} {o : Channels} (hwf : q.WF h) (hwf' : q'.WF o)
    {b : ChannelPtr} (hreg : q.channels.lookup (h b).fd = some b)
    (hreg' : q'.channels.lookup (o b).fd = some b) (hfd : (o b).fd = (h b).fd)
    (hslot : ∀ pfd, q.Slot h b pfd → q'.Slot o b pfd) :
    q'.watches (h b).fd = q.watches (h b).fd := by
  obtain ⟨pfd, hpfd, -⟩ := hwf.registered_slot hreg
  have hiff := hwf.watches_iff hreg hpfd
  have hiff' := hwf'.watches_iff hreg' (hslot pfd hpfd)
  rw [hfd] at hiff'
  rw [Bool.eq_iff_iff, hiff, hiff']

/-- The other channels stay as they are. -/
theorem updateChannel_watches_other (hwf : p.WF h)
    (hcan : p.Fresh h channel ∨ p.Registered h channel) {c : Channel}
    (hfd : c.fd = (h channel).fd) (hidx : c.index = (h channel).index)
    {r : Poller × Channels}
    (hr : p.updateChannel channel (Function.update h channel c) = .ok r) {b : ChannelPtr}
    (hb : b ≠ channel) (hregb : p.Registered h b) :
    r.1.watches (h b).fd = p.watches (h b).fd := by
  have hne : (h b).fd ≠ c.fd := by
    intro heq
    rw [hfd] at heq
    rw [Registered, heq] at hregb
    rcases hcan with ⟨hnone, -⟩ | hreg
    · rw [hnone] at hregb
      cases hregb
    · rw [Registered, hregb, Option.some.injEq] at hreg
      exact hb hreg
  cases p with
  | epoll q =>
      obtain ⟨q', hok, -, hinterest, -⟩ := EPollPoller.updateChannel_eq hwf hcan hfd hidx
      rw [updateChannel, hok] at hr
      cases hr
      show (q'.interest _).isSome = (q.interest _).isSome
      rw [hinterest, Function.update_of_ne hne]
  | poll q =>
      have hstays : ∀ (q' : PollPoller) (o : Channels),
          Updates q.channels q'.channels h o channel c →
          (o b).fd = (h b).fd ∧ q'.channels.lookup (o b).fd = some b := by
        intro q' o hup
        have hfdb : (o b).fd = (h b).fd := by rw [hup.others b hb]
        refine ⟨hfdb, ?_⟩
        rw [hfdb, hup.lookup, if_neg hne]
        exact hregb
      rcases hcan with ⟨hnone, hnew⟩ | hreg
      · have hneg : (h channel).index < 0 := by
          rw [hnew]
          decide
        obtain ⟨q', o, hok, hwf', hup, hslots, -⟩ :=
          PollPoller.updateChannel_new hwf hnone hneg hfd hidx
        rw [updateChannel, hok] at hr
        cases hr
        obtain ⟨hfdb, hregb'⟩ := hstays q' o hup
        exact watches_of_slots hwf hwf' hregb hregb' hfdb fun x => hslots b x hb
      · obtain ⟨q', o, hok, hwf', hup, hslots, -⟩ :=
          PollPoller.updateChannel_registered hwf hreg hfd hidx
        rw [updateChannel, hok] at hr
        cases hr
        obtain ⟨hfdb, hregb'⟩ := hstays q' o hup
        exact watches_of_slots hwf hwf' hregb hregb' hfdb fun x => hslots b x hb hregb

/-- Removing one channel hides no other one. -/
theorem removeChannel_watches_other (hwf : p.WF h) {r : Poller × Channels}
    (hr : p.removeChannel channel h = .ok r) {b : ChannelPtr} (hb : b ≠ channel)
    (hregb : p.Registered h b) : r.1.watches (h b).fd = p.watches (h b).fd := by
  obtain ⟨hreg, hnone, hdis⟩ := removeChannel_ok hr
  have hne : (h b).fd ≠ (h channel).fd := by
    intro heq
    rw [Registered, heq, hreg, Option.some.injEq] at hregb
    exact hb hregb.symm
  cases p with
  | epoll q =>
      obtain ⟨q', hok, -, hinterest, -⟩ := EPollPoller.removeChannel_eq hwf ⟨hreg, hnone⟩
      rw [removeChannel, hok] at hr
      cases hr
      show (q'.interest _).isSome = (q.interest _).isSome
      rw [hinterest, if_neg hne]
  | poll q =>
      obtain ⟨q', o, hok, hwf', hrem, hslots⟩ :=
        PollPoller.removeChannel_spec hwf ⟨hreg, hnone, hdis⟩
      rw [removeChannel, hok] at hr
      cases hr
      obtain ⟨k, hk⟩ := hrem.same b
      have hfdb : (o b).fd = (h b).fd := by rw [hk]
      refine watches_of_slots hwf hwf' hregb ?_ hfdb fun x => hslots b x hb hregb
      rw [hfdb, hrem.lookup, if_neg hne]
      exact hregb

end Poller

end Zing.Net
