import Zing.Net.ChannelOps
import Zing.Net.EPollPoller

set_option autoImplicit false

/-! # `EPollPoller` and the kernel

The poller keeps its record of a channel in three places: the index of the channel, the map
`channels_`, and the interest list in the kernel. `Bookkeeping` says how they go together, and
`epoll_bookkeeping` that they do so behind every sequence of operations of the channels, in
which no call of `epoll_ctl` fails.
-/

namespace Zing.Net.EPollPoller

open Zing.Lib
open ChannelOps (Op Update Loop Constructed Legal)

/-- The functions of the poller that channels use. -/
def calls : ChannelOps.Calls EPollPoller where
  channels := EPollPoller.channels
  updateChannel := EPollPoller.updateChannel
  removeChannel := EPollPoller.removeChannel

/-- The runs of the operations on new channels. -/
def runs (h : Channels) : System (Loop EPollPoller) Op Poller.Assertion :=
  ChannelOps.runs calls EPollPoller.new h

/-- The index of a channel, `channels_` and the interest list say the same. -/
structure Bookkeeping (s : Loop EPollPoller) (channel : ChannelPtr) : Prop where
  index : (s.channels channel).index = kNew ∨ (s.channels channel).index = kAdded ∨
    (s.channels channel).index = kDeleted
  new : (s.channels channel).index = kNew ↔
    s.poller.channels.lookup (s.channels channel).fd = none
  added : (s.channels channel).index = kAdded ↔
    s.poller.interest (s.channels channel).fd ≠ none
  entry : (s.channels channel).index = kAdded →
    s.poller.interest (s.channels channel).fd = some ((s.channels channel).events, channel)

/-- The invariant, for the channels `S`: the poller is in order, has channels of `S` only, and a
channel of `S` that it does not have has the index of a new one. -/
structure Known (S : Set ChannelPtr) (s : Loop EPollPoller) : Prop where
  wf : s.poller.WF s.channels
  registered : ∀ fd a, s.poller.channels.lookup fd = some a → a ∈ S
  new : ∀ a ∈ S, s.poller.channels.lookup (s.channels a).fd = none →
    (s.channels a).index = kNew
  distinct : Set.InjOn (fun a => (s.channels a).fd) S
  logged : s.poller.logged = 0

variable {S : Set ChannelPtr} {s t : Loop EPollPoller} {channel : ChannelPtr}

/-- New channels, and a poller that has none. -/
theorem known_start {h : Channels} (hc : Constructed S h) :
    Known S { poller := EPollPoller.new, channels := h } where
  wf := new_wf h
  registered := by
    intro fd a ha
    cases ha
  new := by
    intro a ha _
    show (h a).index = kNew
    rw [hc.new a ha]
    rfl
  distinct := hc.distinct
  logged := rfl

/-- The descriptor of a channel is its own. -/
theorem Known.registered_self (h : Known S s) (hS : channel ∈ S)
    (hreg : s.poller.channels.lookup (s.channels channel).fd ≠ none) :
    s.poller.channels.lookup (s.channels channel).fd = some channel := by
  obtain ⟨b, hb⟩ := Option.ne_none_iff_exists'.mp hreg
  have hfd : (s.channels b).fd = (s.channels channel).fd := h.wf.fd _ b hb
  rw [hb, h.distinct (h.registered _ b hb) hS hfd]

/-- Every channel of the run may be updated, whatever has become of it. -/
theorem Known.canUpdate (h : Known S s) (hS : channel ∈ S) :
    s.poller.CanUpdate s.channels channel := by
  by_cases hnone : s.poller.channels.lookup (s.channels channel).fd = none
  · exact Or.inl ⟨hnone, h.new channel hS hnone⟩
  · exact Or.inr (h.registered_self hS hnone)

/-- The three records of one channel, from those of all. -/
theorem Known.bookkeeping (h : Known S s) (hS : channel ∈ S) : Bookkeeping s channel := by
  by_cases hnone : s.poller.channels.lookup (s.channels channel).fd = none
  · have hnew := h.new channel hS hnone
    have hint := h.wf.unregistered _ hnone
    refine ⟨Or.inl hnew, ⟨fun _ => hnone, fun _ => hnew⟩, ⟨?_, fun hi => absurd hint hi⟩, ?_⟩
    · intro hadd
      rw [hnew] at hadd
      cases hadd
    · intro hadd
      rw [hnew] at hadd
      cases hadd
  · have hreg := h.registered_self hS hnone
    rcases h.wf.index _ _ hreg with hadd | hdel
    · have hentry := h.wf.added _ _ hreg hadd
      refine ⟨Or.inr (Or.inl hadd), ⟨?_, fun hn => absurd hn hnone⟩, ⟨?_, fun _ => hadd⟩,
        fun _ => hentry⟩
      · intro hnew
        rw [hadd] at hnew
        cases hnew
      · intro _
        rw [hentry]
        exact Option.some_ne_none _
    · have hint := h.wf.deleted _ _ hreg hdel
      refine ⟨Or.inr (Or.inr hdel), ⟨?_, fun hn => absurd hn hnone⟩,
        ⟨?_, fun hi => absurd hint hi⟩, ?_⟩
      all_goals
        intro hi
        rw [hdel] at hi
        cases hi

/-- An operation changes no descriptor, so they stay different. -/
theorem distinct_of_same {h h' : Channels} (hd : Set.InjOn (fun a => (h a).fd) S)
    (hsame : ∀ a, (h' a).fd = (h a).fd) : Set.InjOn (fun a => (h' a).fd) S := by
  intro a ha b hb heq
  apply hd ha hb
  show (h a).fd = (h b).fd
  rw [← hsame a, ← hsame b]
  exact heq

/-- What one of the functions that end in `update()` does. -/
theorem Known.update_eq (h : Known S s) (hS : channel ∈ S) (u : Update) :
    ∃ p', s.update calls u channel = .ok ⟨p', Function.update s.channels channel
        { u.apply (s.channels channel) with index := indexAfter (u.apply (s.channels channel)) }⟩ ∧
      (∀ fd, p'.channels.lookup fd =
        if fd = (s.channels channel).fd then some channel else s.poller.channels.lookup fd) ∧
      p'.interest = Function.update s.poller.interest (s.channels channel).fd
        (entryAfter (u.apply (s.channels channel)) channel) ∧
      p'.logged = s.poller.logged := by
  have hfd := ChannelOps.apply_fd u (s.channels channel)
  obtain ⟨p', hok, hlookup, hinterest, hlogged⟩ :=
    updateChannel_eq h.wf (h.canUpdate hS) hfd (ChannelOps.apply_index u _)
  rw [hfd] at hlookup hinterest
  refine ⟨p', ?_, hlookup, hinterest, hlogged⟩
  show (s.poller.updateChannel _ _ >>= _) = _
  rw [hok]
  rfl

/-- One of the functions that end in `update()`. -/
theorem Known.update (h : Known S s) (hS : channel ∈ S) (u : Update) :
    ∃ t, s.update calls u channel = .ok t ∧ Known S t := by
  have hfd := ChannelOps.apply_fd u (s.channels channel)
  obtain ⟨p', hok, hlookup, hinterest, hlogged⟩ := h.update_eq hS u
  have hwf := h.wf.updated hfd (by rw [hfd]; exact hlookup) (by rw [hfd]; exact hinterest)
  set h' := Function.update s.channels channel
    { u.apply (s.channels channel) with index := indexAfter (u.apply (s.channels channel)) }
    with hh'
  have hothers : ∀ a, a ≠ channel → h' a = s.channels a := fun a ha => Function.update_of_ne ha ..
  have hsame : ∀ a, (h' a).fd = (s.channels a).fd := by
    intro a
    by_cases ha : a = channel
    · subst ha
      rw [hh', Function.update_self]
      exact hfd
    · rw [hothers a ha]
  refine ⟨⟨p', h'⟩, hok, hwf, ?_, ?_,
    distinct_of_same h.distinct hsame, hlogged.trans h.logged⟩
  · intro fd a ha
    rw [hlookup] at ha
    by_cases hc : fd = (s.channels channel).fd
    · rw [if_pos hc, Option.some.injEq] at ha
      rw [← ha]
      exact hS
    · rw [if_neg hc] at ha
      exact h.registered fd a ha
  · intro a ha hnone
    have hnone : p'.channels.lookup (h' a).fd = none := hnone
    rw [hsame, hlookup] at hnone
    by_cases hc : (s.channels a).fd = (s.channels channel).fd
    · rw [if_pos hc] at hnone
      cases hnone
    · rw [if_neg hc] at hnone
      have hne : a ≠ channel := by
        rintro rfl
        exact hc rfl
      show (h' a).index = kNew
      rw [hothers a hne]
      exact h.new a ha hnone

/-- What `remove()` does to a registered channel without events. -/
theorem Known.remove_eq (h : Known S s)
    (hnone : (s.channels channel).isNoneEvent = true)
    (hreg : s.poller.channels.lookup (s.channels channel).fd = some channel) :
    ∃ p', s.remove calls channel = .ok ⟨p', Poller.setIndex (Function.update s.channels channel
        { s.channels channel with addedToLoop := false }) channel kNew⟩ ∧
      (∀ fd, p'.channels.lookup fd =
        if fd = (s.channels channel).fd then none else s.poller.channels.lookup fd) ∧
      (∀ fd, p'.interest fd =
        if fd = (s.channels channel).fd then none else s.poller.interest fd) ∧
      p'.logged = s.poller.logged := by
  have hagrees := ChannelOps.agrees_clearAdded s.channels channel
  obtain ⟨hfd, -, hevents⟩ := hagrees channel
  have hcan : s.poller.CanRemove (Function.update s.channels channel
      { s.channels channel with addedToLoop := false }) channel := by
    refine ⟨?_, ?_⟩
    · rw [hfd]
      exact hreg
    · rw [Channel.isNoneEvent, hevents]
      exact hnone
  obtain ⟨p', hok, hlookup, hinterest, hlogged⟩ := removeChannel_eq (h.wf.agrees hagrees) hcan
  rw [hfd] at hlookup hinterest
  refine ⟨p', ?_, hlookup, hinterest, hlogged⟩
  rw [Loop.remove, check_bind hnone]
  show (s.poller.removeChannel _ _ >>= _) = _
  rw [hok]
  rfl

/-- `remove()` on a registered channel without events. -/
theorem Known.remove (h : Known S s) (hS : channel ∈ S)
    (hnone : (s.channels channel).isNoneEvent = true)
    (hreg : s.poller.channels.lookup (s.channels channel).fd = some channel) :
    ∃ t, s.remove calls channel = .ok t ∧ Known S t := by
  have hagrees := ChannelOps.agrees_clearAdded s.channels channel
  have hfd := (hagrees channel).1
  obtain ⟨p', hok, hlookup, hinterest, hlogged⟩ := h.remove_eq hnone hreg
  have hwf' := (h.wf.agrees hagrees).removed (by rw [hfd]; exact hlookup)
    (by rw [hfd]; exact hinterest)
  set h' := Poller.setIndex (Function.update s.channels channel
    { s.channels channel with addedToLoop := false }) channel kNew with hh'
  have hsame : ∀ a, (h' a).fd = (s.channels a).fd := by
    intro a
    obtain ⟨k, hk⟩ := Poller.setIndex_eq (Function.update s.channels channel
      { s.channels channel with addedToLoop := false }) channel a kNew
    rw [hh', hk]
    exact (hagrees a).1
  refine ⟨⟨p', h'⟩, hok, hwf', ?_, ?_, distinct_of_same h.distinct hsame,
    hlogged.trans h.logged⟩
  · intro fd a ha
    rw [hlookup] at ha
    by_cases hc : fd = (s.channels channel).fd
    · rw [if_pos hc] at ha
      cases ha
    · rw [if_neg hc] at ha
      exact h.registered fd a ha
  · intro a ha hn
    by_cases hne : a = channel
    · subst hne
      show (h' a).index = kNew
      rw [hh', Poller.setIndex_self]
    · have hn : p'.channels.lookup (h' a).fd = none := hn
      rw [hsame, hlookup] at hn
      have hc : (s.channels a).fd ≠ (s.channels channel).fd :=
        fun heq => hne (h.distinct ha hS heq)
      rw [if_neg hc] at hn
      show (h' a).index = kNew
      rw [hh', Poller.setIndex_of_ne kNew hne, Function.update_of_ne hne]
      exact h.new a ha hn

/-- `remove()` asserts that it is called for such a channel only. -/
theorem legal_of_ok {op : Op} (hS : op.channel ∈ S) (ht : s.step calls op = .ok t) :
    Legal calls S s op := by
  refine ⟨hS, ?_⟩
  rintro channel rfl
  obtain ⟨_, hnone, ht⟩ := bind_eq_ok.mp ht
  obtain ⟨r, hr, -⟩ := bind_eq_ok.mp ht
  have hreg := (canRemove_of_ok hr).1
  rw [(ChannelOps.agrees_clearAdded s.channels channel channel).1] at hreg
  exact ⟨check_eq_ok.mp hnone, hreg⟩

/-- Every operation succeeds and keeps the invariant. -/
theorem Known.step (h : Known S s) {op : Op} (hop : Legal calls S s op) :
    ∃ t, s.step calls op = .ok t ∧ Known S t := by
  cases op with
  | update u channel => exact h.update hop.channel u
  | remove channel =>
      obtain ⟨hnone, hreg⟩ := hop.remove channel rfl
      exact h.remove hop.channel hnone hreg

/-- By induction on the operations. -/
theorem reachable_known {h : Channels} (hc : Constructed S h)
    (hr : (runs h).Reachable (Legal calls S) s) : Known S s := by
  apply hr.invariant
  · rintro _ rfl
    exact known_start hc
  · intro s op t hs hop hn
    have hn' : some (s.step calls op) = some (.ok t) := hn
    obtain ⟨t', ht', hknown⟩ := hs.step hop
    rw [ht'] at hn'
    cases hn'
    exact hknown

/-- Behind any sequence of operations on new channels with different descriptors, the three
records of each channel agree, no call of `epoll_ctl` has failed, and no assertion fails in
the next operation. -/
theorem epoll_bookkeeping {h : Channels} (hc : Constructed S h)
    (hr : (runs h).Reachable (Legal calls S) s) :
    (∀ channel ∈ S, Bookkeeping s channel) ∧ s.poller.logged = 0 ∧
      ∀ op e, Legal calls S s op → ¬ (runs h).Fails s op e := by
  have hknown := reachable_known hc hr
  refine ⟨fun channel hS => hknown.bookkeeping hS, hknown.logged, ?_⟩
  intro op e hop hf
  have hf' : some (s.step calls op) = some (.error e) := hf
  obtain ⟨t, ht, -⟩ := hknown.step hop
  rw [ht] at hf'
  cases hf'

/-- A channel is added, disabled, removed from the loop, and added again. -/
theorem epoll_bookkeeping_sample : ∃ s : Loop EPollPoller,
    (runs fun a => Channel.new (a + 5)).Reachable (Legal calls {0}) s ∧
    (s.channels 0).index = kAdded ∧ s.poller.interest 5 = some (kWriteEvent, 0) := by
  have hc : Constructed {0} (fun a => Channel.new (a + 5)) := by
    refine ⟨fun _ _ => rfl, ?_⟩
    intro a ha b hb _
    rw [Set.mem_singleton_iff.mp ha, Set.mem_singleton_iff.mp hb]
  have hadd : (runs fun a => Channel.new (a + 5)).Run (Legal calls {0})
      ⟨EPollPoller.new, fun a => Channel.new (a + 5)⟩ [.update .enableReading 0] _ :=
    System.Run.single ⟨rfl, by rintro a ⟨⟩⟩ rfl
  have hdisable := hadd.snoc (a := Op.update .disableAll 0) ⟨rfl, by rintro a ⟨⟩⟩ rfl
  have hremove := hdisable.snoc (a := Op.remove 0) ⟨rfl, by rintro a ⟨⟩; exact ⟨rfl, rfl⟩⟩ rfl
  have hagain := hremove.snoc (a := Op.update .enableWriting 0) ⟨rfl, by rintro a ⟨⟩⟩ rfl
  have hreach : (runs fun a => Channel.new (a + 5)).Reachable (Legal calls {0}) _ :=
    ⟨_, _, rfl, hagain⟩
  have hbook := (epoll_bookkeeping hc hreach).1 0 rfl
  exact ⟨_, hreach, rfl, hbook.entry rfl⟩

end Zing.Net.EPollPoller
