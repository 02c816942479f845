import Zing.Net.EPollPoller
import Zing.Net.PollDispatch

set_option autoImplicit false

/-! # `EPollPoller::poll`

What `epoll_wait` answers and what `poll` makes of it: `fillActiveChannels` follows the pointers
that the kernel hands back, and `events_`, the array for the answer, is doubled when it was
filled. The kernel chooses what to report, within what `WaitResult` says.

`poll_spec` says that behind the invariant of the poller every pointer leads to a registered
channel, so that the assertions of `fillActiveChannels` hold.
-/

namespace Zing.Net.EPollPoller

open Zing.Lib
open PollPoller (setRevents setRevents_self setRevents_of_ne)

def kInitEventListSize : Nat := 16

/-- A `struct epoll_event`, with `data.ptr`. -/
structure EpollEvent where
  events : Events
  ptr : ChannelPtr
  deriving DecidableEq, Repr

/-- The assertions of `poll`. `freed` is the use of a channel that does not exist any more. -/
inductive PollAssertion
  | capacity
  | freed
  | poller (e : Poller.Assertion)
  deriving DecidableEq, Repr

/-- The loop of `fillActiveChannels`, over the part of `events_` that was written. -/
def fill (p : EPollPoller) (live : ChannelPtr → Bool) :
    List EpollEvent → Channels → List ChannelPtr →
      Except PollAssertion (Channels × List ChannelPtr)
  | [], h, activeChannels => .ok (h, activeChannels)
  | event :: events, h, activeChannels => do
      let channel := event.ptr
      check (live channel = true) .freed
      nested .poller (Poller.checkRegistered p.channels channel (h channel).fd)
      fill p live events (setRevents h channel event.events) (activeChannels ++ [channel])

def fillActiveChannels (p : EPollPoller) (size : Nat) (live : ChannelPtr → Bool)
    (events : List EpollEvent) (h : Channels) (activeChannels : List ChannelPtr) :
    Except PollAssertion (Channels × List ChannelPtr) := do
  check (events.length ≤ size) .capacity
  fill p live events h activeChannels

/-- `EPollPoller::poll` with an `events_` of `size` elements, where `epoll_wait` has written
`events`, or has failed. -/
def poll (p : EPollPoller) (size : Nat) (live : ChannelPtr → Bool)
    (events : Option (List EpollEvent)) (h : Channels) (activeChannels : List ChannelPtr) :
    Except PollAssertion (Nat × Channels × List ChannelPtr) :=
  match events with
  | none => .ok (size, h, activeChannels)
  | some events =>
      if 0 < events.length then do
        let r ← p.fillActiveChannels size live events h activeChannels
        .ok (if events.length = size then size * 2 else size, r.1, r.2)
      else .ok (size, h, activeChannels)

/-! ## `epoll_wait` -/

/-- The events of a descriptor that are reported to one who watches `mask`. -/
def reported (mask ready : Events) : Events :=
  ready.and (mask.or { pollErr := true, pollHup := true })

/-- The kernel has something to report about `fd`, where the descriptors have the events
`ready`. -/
def isReady (p : EPollPoller) (ready : Nat → Events) (fd : Nat) : Bool :=
  match p.interest fd with
  | none => false
  | some e => (reported e.1 (ready fd)).nonzero

/-- What the kernel writes about the descriptors `fds`. -/
def report (p : EPollPoller) (ready : Nat → Events) (fds : List Nat) : List EpollEvent :=
  fds.filterMap fun fd => (p.interest fd).map fun e => ⟨reported e.1 (ready fd), e.2⟩

/-- What `epoll_wait` may answer: some of the descriptors that are ready, as many as there is
room for. -/
structure WaitResult (p : EPollPoller) (size : Nat) (ready : Nat → Events) (fds : List Nat) :
    Prop where
  fits : fds.length ≤ size
  nodup : fds.Nodup
  sound : ∀ fd ∈ fds, p.isReady ready fd = true
  complete : fds.length < size → ∀ fd, p.isReady ready fd = true → fd ∈ fds

variable {p : EPollPoller} {h : Channels} {size : Nat} {ready : Nat → Events} {fds : List Nat}

/-- An entry of the interest list is that of a registered channel. -/
theorem WF.entry (hwf : p.WF h) {fd : Nat} {mask : Events} {channel : ChannelPtr}
    (hint : p.interest fd = some (mask, channel)) :
    p.channels.lookup fd = some channel ∧ (h channel).fd = fd ∧
      (h channel).events = mask := by
  have hreg : p.channels.lookup fd ≠ none := by
    intro hnone
    rw [hwf.unregistered fd hnone] at hint
    cases hint
  obtain ⟨a, ha⟩ := Option.ne_none_iff_exists'.mp hreg
  rcases hwf.index fd a ha with hadd | hdel
  · have hentry := hwf.added fd a ha hadd
    rw [hint, Option.some.injEq, Prod.mk.injEq] at hentry
    obtain ⟨hmask, hptr⟩ := hentry
    subst hptr
    exact ⟨ha, hwf.fd fd channel ha, hmask.symm⟩
  · rw [hwf.deleted fd a ha hdel] at hint
    cases hint

theorem isReady_iff {fd : Nat} : p.isReady ready fd = true ↔
    ∃ mask channel, p.interest fd = some (mask, channel) ∧
      (reported mask (ready fd)).nonzero = true := by
  rw [isReady]
  cases hint : p.interest fd with
  | none => simp
  | some e =>
      obtain ⟨mask, channel⟩ := e
      simp

/-- The kernel reports on nothing but the interest list. -/
theorem mem_of_isReady {watched : List Nat} (hw : ∀ fd, fd ∉ watched → p.interest fd = none)
    {fd : Nat} (hready : p.isReady ready fd = true) : fd ∈ watched := by
  by_contra hfd
  obtain ⟨mask, channel, hint, -⟩ := isReady_iff.mp hready
  rw [hw fd hfd] at hint
  cases hint

theorem report_cons {fd : Nat} {mask : Events} {channel : ChannelPtr}
    (hint : p.interest fd = some (mask, channel)) :
    p.report ready (fd :: fds) = ⟨reported mask (ready fd), channel⟩ :: p.report ready fds := by
  rw [report, List.filterMap_cons, hint]
  rfl

theorem mem_report {event : EpollEvent} : event ∈ p.report ready fds ↔
    ∃ fd ∈ fds, ∃ mask, p.interest fd = some (mask, event.ptr) ∧
      event.events = reported mask (ready fd) := by
  rw [report, List.mem_filterMap]
  constructor
  · rintro ⟨fd, hfd, hevent⟩
    obtain ⟨⟨mask, channel⟩, hint, heq⟩ := Option.map_eq_some_iff.mp hevent
    subst heq
    exact ⟨fd, hfd, mask, hint, rfl⟩
  · rintro ⟨fd, hfd, mask, hint, hevents⟩
    refine ⟨fd, hfd, ?_⟩
    rw [hint, Option.map_some, ← hevents]

/-- Every descriptor of an answer gives one event. -/
theorem WaitResult.length (hres : p.WaitResult size ready fds) :
    (p.report ready fds).length = fds.length := by
  have hsound := hres.sound
  clear hres
  induction fds with
  | nil => rfl
  | cons fd fds ih =>
      obtain ⟨mask, channel, hint, -⟩ := isReady_iff.mp (hsound fd List.mem_cons_self)
      rw [report_cons hint, List.length_cons, List.length_cons,
        ih fun x hx => hsound x (List.mem_cons_of_mem _ hx)]

/-- Two descriptors of an answer have two channels. -/
theorem WaitResult.nodup_ptrs (hwf : p.WF h) (hres : p.WaitResult size ready fds) :
    ((p.report ready fds).map EpollEvent.ptr).Nodup := by
  obtain ⟨-, hnodup, hsound, -⟩ := hres
  induction fds with
  | nil => exact List.nodup_nil
  | cons fd fds ih =>
      obtain ⟨mask, channel, hint, -⟩ := isReady_iff.mp (hsound fd List.mem_cons_self)
      rw [List.nodup_cons] at hnodup
      rw [report_cons hint, List.map_cons, List.nodup_cons]
      refine ⟨?_, ih hnodup.2 fun x hx => hsound x (List.mem_cons_of_mem _ hx)⟩
      intro hmem
      obtain ⟨event, hevent, hptr⟩ := List.mem_map.mp hmem
      obtain ⟨fd', hfd', mask', hint', -⟩ := mem_report.mp hevent
      have hsame : fd' = fd := by
        rw [hptr] at hint'
        rw [← (hwf.entry hint').2.1, (hwf.entry hint).2.1]
      exact hnodup.1 (hsame ▸ hfd')

/-! ## The loop over the events -/

/-- The reported channels have their events, the others are as before. -/
structure Filled (events : List EpollEvent) (h h' : Channels) : Prop where
  reported : ∀ event ∈ events, h' event.ptr = { h event.ptr with revents := event.events }
  others : ∀ a, a ∉ events.map EpollEvent.ptr → h' a = h a

theorem fill_eq {live : ChannelPtr → Bool} {events : List EpollEvent}
    {activeChannels : List ChannelPtr}
    (hlive : ∀ event ∈ events, live event.ptr = true ∧
      p.channels.lookup (h event.ptr).fd = some event.ptr)
    (hnodup : (events.map EpollEvent.ptr).Nodup) :
    ∃ h', p.fill live events h activeChannels =
        .ok (h', activeChannels ++ events.map EpollEvent.ptr) ∧ Filled events h h' := by
  induction events generalizing h activeChannels with
  | nil =>
      refine ⟨h, ?_, ?_⟩
      · rw [fill, List.map_nil, List.append_nil]
      · exact ⟨fun event hmem => absurd hmem List.not_mem_nil, fun a _ => rfl⟩
  | cons event events ih =>
      obtain ⟨halive, hreg⟩ := hlive event List.mem_cons_self
      rw [List.map_cons, List.nodup_cons] at hnodup
      have htail : ∀ x ∈ events, live x.ptr = true ∧
          p.channels.lookup (setRevents h event.ptr event.events x.ptr).fd = some x.ptr := by
        intro x hx
        rw [PollPoller.setRevents_fd]
        exact hlive x (List.mem_cons_of_mem _ hx)
      obtain ⟨h', hfill, hrep, hothers⟩ :=
        @ih (setRevents h event.ptr event.events) (activeChannels ++ [event.ptr]) htail hnodup.2
      refine ⟨h', ?_, ?_, ?_⟩
      · rw [fill]
        rw [check_bind halive, Poller.checkRegistered_ok hreg, nested_ok, ok_bind, hfill,
          List.append_assoc, List.singleton_append, List.map_cons]
      · intro x hx
        rcases List.mem_cons.mp hx with rfl | hx
        · rw [hothers x.ptr hnodup.1, setRevents_self]
        · have hne : x.ptr ≠ event.ptr := by
            intro heq
            exact hnodup.1 (heq ▸ List.mem_map_of_mem hx)
          rw [hrep x hx, setRevents_of_ne _ hne]
      · intro a ha
        rw [List.map_cons, List.mem_cons, not_or] at ha
        rw [hothers a ha.2, setRevents_of_ne _ ha.1]

/-! ## A poll behind the invariant -/

/-- What `poll` leaves in `activeChannels`: the channels of the descriptors that were reported,
each once, with what is reported about it in `revents_`. -/
structure Active (p : EPollPoller) (ready : Nat → Events) (fds : List Nat) (h h' : Channels)
    (active : List ChannelPtr) : Prop where
  nodup : active.Nodup
  length : active.length = fds.length
  mem : ∀ a, a ∈ active ↔ ∃ fd ∈ fds, p.channels.lookup fd = some a
  revents : ∀ a ∈ active,
    h' a = { h a with revents := reported (h a).events (ready (h a).fd) }
  others : ∀ a, a ∉ active → h' a = h a

theorem Filled.active (hwf : p.WF h) (hres : p.WaitResult size ready fds) {h' : Channels}
    (hfilled : Filled (p.report ready fds) h h') :
    p.Active ready fds h h' ((p.report ready fds).map EpollEvent.ptr) where
  nodup := hres.nodup_ptrs hwf
  length := by rw [List.length_map, hres.length]
  mem := by
    intro a
    rw [List.mem_map]
    constructor
    · rintro ⟨event, hevent, rfl⟩
      obtain ⟨fd, hfd, mask, hint, -⟩ := mem_report.mp hevent
      exact ⟨fd, hfd, (hwf.entry hint).1⟩
    · rintro ⟨fd, hfd, ha⟩
      obtain ⟨mask, channel, hint, -⟩ := isReady_iff.mp (hres.sound fd hfd)
      have hsame := (hwf.entry hint).1
      rw [ha, Option.some.injEq] at hsame
      subst hsame
      exact ⟨⟨_, a⟩, mem_report.mpr ⟨fd, hfd, mask, hint, rfl⟩, rfl⟩
  revents := by
    intro a ha
    obtain ⟨event, hevent, rfl⟩ := List.mem_map.mp ha
    obtain ⟨fd, -, mask, hint, hevents⟩ := mem_report.mp hevent
    obtain ⟨-, hfd, hmask⟩ := hwf.entry hint
    rw [hfilled.reported event hevent, hevents, hfd, hmask]
  others := hfilled.others

/-- A poll changes nothing that the invariant looks at. -/
theorem Active.agrees {h' : Channels} {active : List ChannelPtr}
    (ha : p.Active ready fds h h' active) : Poller.Agrees h h' := by
  intro a
  by_cases hmem : a ∈ active
  · rw [ha.revents a hmem]
    exact ⟨rfl, rfl, rfl⟩
  · rw [ha.others a hmem]
    exact ⟨rfl, rfl, rfl⟩

/-- The size of `events_` behind an answer about `n` descriptors. -/
def sizeAfter (size n : Nat) : Nat := if n = size then size * 2 else size

/-- `poll`, where the channels of the poller exist. -/
theorem WF.poll (hwf : p.WF h) (hsize : 0 < size) (hres : p.WaitResult size ready fds)
    (live : ChannelPtr → Bool)
    (hlive : ∀ fd a, p.channels.lookup fd = some a → live a = true) :
    ∃ h' active, p.poll size live (some (p.report ready fds)) h [] =
        .ok (sizeAfter size fds.length, h', active) ∧ p.Active ready fds h h' active := by
  have hevents : ∀ event ∈ p.report ready fds, live event.ptr = true ∧
      p.channels.lookup (h event.ptr).fd = some event.ptr := by
    intro event hevent
    obtain ⟨fd, -, mask, hint, -⟩ := mem_report.mp hevent
    obtain ⟨hreg, hfd, -⟩ := hwf.entry hint
    exact ⟨hlive fd _ hreg, by rw [hfd]; exact hreg⟩
  obtain ⟨h', hfill, hfilled⟩ := @fill_eq p h live _ [] hevents (hres.nodup_ptrs hwf)
  have hactive := hfilled.active hwf hres
  have hlength := hres.length
  by_cases hpos : 0 < fds.length
  · refine ⟨h', _, ?_, hactive⟩
    have hfits : (p.report ready fds).length ≤ size := hlength.trans_le hres.fits
    rw [EPollPoller.poll]
    rw [if_pos (hlength.symm ▸ hpos), fillActiveChannels, check_bind hfits, hfill, ok_bind,
      hlength, List.nil_append]
    rfl
  · -- nothing happened
    obtain rfl : fds = [] := List.length_eq_zero_iff.mp (by omega)
    refine ⟨h', _, ?_, hactive⟩
    have hsame : h' = h := funext fun a => hactive.others a List.not_mem_nil
    have hne : (0 : Nat) ≠ size := by omega
    rw [hsame, sizeAfter, List.length_nil, if_neg hne]
    rfl

end Zing.Net.EPollPoller
