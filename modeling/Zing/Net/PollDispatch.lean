import Zing.Net.ChannelOps
import Zing.Net.PollPoller

set_option autoImplicit false

/-! # `PollPoller` and its slots

Updates, removals and polls on one `PollPoller`, in any order and with any events. `Slots` says
that channels and slots correspond one to one behind them, and `slots_and_dispatch` that
`fillActiveChannels` therefore reports the owner of every slot with events, and no other
channel.
-/

namespace Zing.Net.PollPoller

open Zing.Lib
open Poller (Assertion)
open ChannelOps (Loop)

/-- `channels_.find(fd)` -/
def find (channels : ChannelMap) (fd : Int) : Option ChannelPtr :=
  if 0 ≤ fd then channels.lookup fd.toNat else none

def setRevents (h : Channels) (channel : ChannelPtr) (revents : Events) : Channels :=
  Function.update h channel { h channel with revents := revents }

/-- `pfd->revents > 0` -/
def ready (pfd : PollFd) : Bool := pfd.revents.nonzero

/-- The loop of `fillActiveChannels` over the slots from `pfd` on. -/
def fill (channels : ChannelMap) :
    List PollFd → Int → Channels → List ChannelPtr →
      Except Assertion (Channels × List ChannelPtr)
  | [], _, h, activeChannels => .ok (h, activeChannels)
  | pfd :: pfds, numEvents, h, activeChannels =>
      if 0 < numEvents then
        if ready pfd = true then
          match find channels pfd.fd with
          | none => .error .registered
          | some channel => do
              check (((h channel).fd : Int) = pfd.fd) .slot
              fill channels pfds (numEvents - 1) (setRevents h channel pfd.revents)
                (activeChannels ++ [channel])
        else fill channels pfds numEvents h activeChannels
      else .ok (h, activeChannels)

def fillActiveChannels (p : PollPoller) (numEvents : Int) (h : Channels)
    (activeChannels : List ChannelPtr) : Except Assertion (Channels × List ChannelPtr) :=
  fill p.channels p.pollfds numEvents h activeChannels

/-- `PollPoller::poll`, where `::poll` has left `pollfds` and returned `numEvents`. -/
def poll (p : PollPoller) (pollfds : List PollFd) (numEvents : Int) (h : Channels)
    (activeChannels : List ChannelPtr) :
    Except Assertion (PollPoller × Channels × List ChannelPtr) := do
  let p := { p with pollfds := pollfds }
  if 0 < numEvents then do
    let r ← p.fillActiveChannels numEvents h activeChannels
    .ok (p, r.1, r.2)
  else
    .ok (p, h, activeChannels)

/-- What `::poll` may do: it sets `revents` of the slots, to nothing where the descriptor is
negative, and returns how many of them it has set to something. -/
structure PollResult (p : PollPoller) (pollfds : List PollFd) (numEvents : Int) : Prop where
  same : pollfds.map (fun pfd => (pfd.fd, pfd.events)) =
    p.pollfds.map fun pfd => (pfd.fd, pfd.events)
  negative : ∀ pfd ∈ pollfds, pfd.fd < 0 → pfd.revents = Events.none
  count : numEvents = (pollfds.countP ready : Nat)

/-! ## The loop over the slots -/

/-- The channels that own the slots with events, in the order of the slots. -/
def owners (channels : ChannelMap) (pollfds : List PollFd) : List ChannelPtr :=
  (pollfds.filter ready).filterMap fun pfd => find channels pfd.fd

variable {channels : ChannelMap} {h : Channels} {channel : ChannelPtr}

theorem find_natCast (channels : ChannelMap) (fd : Nat) :
    find channels (fd : Int) = channels.lookup fd := by
  rw [find, if_pos (Int.natCast_nonneg fd), Int.toNat_natCast]

theorem find_eq_some {fd : Int} (hf : find channels fd = some channel) :
    ∃ n : Nat, fd = n ∧ channels.lookup n = some channel := by
  rw [find] at hf
  split at hf
  case isTrue hnonneg => exact ⟨fd.toNat, (Int.toNat_of_nonneg hnonneg).symm, hf⟩
  case isFalse => cases hf

theorem setRevents_self (h : Channels) (channel : ChannelPtr) (revents : Events) :
    setRevents h channel revents channel = { h channel with revents := revents } :=
  Function.update_self ..

theorem setRevents_of_ne {b : ChannelPtr} (revents : Events) (hb : b ≠ channel) :
    setRevents h channel revents b = h b := Function.update_of_ne hb ..

theorem setRevents_fd (h : Channels) (channel b : ChannelPtr) (revents : Events) :
    (setRevents h channel revents b).fd = (h b).fd := by
  by_cases hb : b = channel
  · rw [hb, setRevents_self]
  · rw [setRevents_of_ne revents hb]

/-- A slot with events is owned by a channel with its descriptor. -/
def Owned (channels : ChannelMap) (h : Channels) (pollfds : List PollFd) : Prop :=
  ∀ pfd ∈ pollfds, ready pfd = true →
    ∃ a, find channels pfd.fd = some a ∧ ((h a).fd : Int) = pfd.fd

theorem mem_owners {pollfds : List PollFd} :
    channel ∈ owners channels pollfds ↔
      ∃ pfd ∈ pollfds, ready pfd = true ∧ find channels pfd.fd = some channel := by
  rw [owners, List.mem_filterMap]
  constructor
  · rintro ⟨pfd, hmem, hfind⟩
    obtain ⟨hmem, hrev⟩ := List.mem_filter.mp hmem
    exact ⟨pfd, hmem, hrev, hfind⟩
  · rintro ⟨pfd, hmem, hrev, hfind⟩
    exact ⟨pfd, List.mem_filter.mpr ⟨hmem, hrev⟩, hfind⟩

theorem owners_cons_of_some {pfd : PollFd} {pollfds : List PollFd}
    (hrev : ready pfd = true) (hfind : find channels pfd.fd = some channel) :
    owners channels (pfd :: pollfds) = channel :: owners channels pollfds := by
  rw [owners, List.filter_cons_of_pos hrev, List.filterMap_cons]
  simp only [hfind]
  rfl

theorem owners_cons_of_none {pfd : PollFd} {pollfds : List PollFd}
    (hrev : ¬ ready pfd = true) :
    owners channels (pfd :: pollfds) = owners channels pollfds := by
  rw [owners, List.filter_cons_of_neg hrev]
  rfl

/-- Two slots with one owner have one descriptor. -/
theorem nodup_owners {pollfds : List PollFd} (howned : Owned channels h pollfds)
    (hfds : (pollfds.map PollFd.fd).Nodup) : (owners channels pollfds).Nodup := by
  induction pollfds with
  | nil => exact List.nodup_nil
  | cons pfd pollfds ih =>
      rw [List.map_cons, List.nodup_cons] at hfds
      have htail : Owned channels h pollfds :=
        fun x hx => howned x (List.mem_cons_of_mem _ hx)
      by_cases hrev : ready pfd = true
      · obtain ⟨a, hfind, hfd⟩ := howned pfd List.mem_cons_self hrev
        rw [owners_cons_of_some hrev hfind, List.nodup_cons]
        refine ⟨?_, ih htail hfds.2⟩
        intro hmem
        obtain ⟨x, hx, hxrev, hxfind⟩ := mem_owners.mp hmem
        obtain ⟨b, hbfind, hbfd⟩ := htail x hx hxrev
        rw [hxfind, Option.some.injEq] at hbfind
        have hsame : x.fd = pfd.fd := by rw [← hbfd, ← hbfind, hfd]
        exact hfds.1 (hsame ▸ List.mem_map_of_mem hx)
      · rw [owners_cons_of_none hrev]
        exact ih htail hfds.2

theorem fill_stop {pollfds : List PollFd} {numEvents : Int} {activeChannels : List ChannelPtr}
    (hn : ¬ 0 < numEvents) :
    fill channels pollfds numEvents h activeChannels = .ok (h, activeChannels) := by
  cases pollfds with
  | nil => rfl
  | cons pfd pollfds => rw [fill, if_neg hn]

/-- The channels that are reported have the events of their slots, the others are as before. -/
structure Reported (channels : ChannelMap) (pollfds : List PollFd) (h h' : Channels) : Prop where
  owner : ∀ a pfd, pfd ∈ pollfds → ready pfd = true → find channels pfd.fd = some a →
    h' a = { h a with revents := pfd.revents }
  others : ∀ a, a ∉ owners channels pollfds → h' a = h a

/-- The countdown reaches zero behind the last slot with events, not before. -/
theorem fill_eq {pollfds : List PollFd} {activeChannels : List ChannelPtr}
    (howned : Owned channels h pollfds) (hfds : (pollfds.map PollFd.fd).Nodup) :
    ∃ h', fill channels pollfds (pollfds.countP ready : Nat) h
        activeChannels = .ok (h', activeChannels ++ owners channels pollfds) ∧
      Reported channels pollfds h h' := by
  induction pollfds generalizing h activeChannels with
  | nil =>
      refine ⟨h, ?_, ?_⟩
      · rw [fill, owners, List.filter_nil, List.filterMap_nil, List.append_nil]
      · exact ⟨fun a pfd hmem => absurd hmem (List.not_mem_nil), fun a _ => rfl⟩
  | cons pfd pollfds ih =>
      have htail : Owned channels h pollfds :=
        fun x hx => howned x (List.mem_cons_of_mem _ hx)
      have hnodup := nodup_owners howned hfds
      rw [List.map_cons, List.nodup_cons] at hfds
      by_cases hrev : ready pfd = true
      · obtain ⟨a, hfind, hfd⟩ := howned pfd List.mem_cons_self hrev
        rw [owners_cons_of_some hrev hfind] at hnodup ⊢
        have hnotMem := (List.nodup_cons.mp hnodup).1
        have htail' : Owned channels (setRevents h a pfd.revents) pollfds := by
          intro x hx hxrev
          obtain ⟨b, hb, hbfd⟩ := htail x hx hxrev
          exact ⟨b, hb, by rw [setRevents_fd]; exact hbfd⟩
        obtain ⟨h', hfill, hrep⟩ := @ih _ (activeChannels ++ [a]) htail' hfds.2
        refine ⟨h', ?_, ?_, ?_⟩
        · have hcount : (((pfd :: pollfds).countP ready : Nat) : Int) - 1 =
              (pollfds.countP ready : Nat) := by
            rw [List.countP_cons_of_pos hrev]
            omega
          have hpos : (0 : Int) < ((pfd :: pollfds).countP ready : Nat) := by
            rw [List.countP_cons_of_pos hrev]
            omega
          rw [fill, if_pos hpos, if_pos hrev, hcount]
          simp only [hfind]
          rw [check_bind hfd, hfill, List.append_assoc, List.singleton_append]
        · intro b x hx hxrev hxfind
          rcases List.mem_cons.mp hx with rfl | hx
          · rw [hfind, Option.some.injEq] at hxfind
            rw [← hxfind, hrep.others a hnotMem, setRevents_self]
          · have hne : b ≠ a := by
              rintro rfl
              exact hnotMem (mem_owners.mpr ⟨x, hx, hxrev, hxfind⟩)
            rw [hrep.owner b x hx hxrev hxfind, setRevents_of_ne _ hne]
        · intro b hb
          rw [owners_cons_of_some hrev hfind, List.mem_cons, not_or] at hb
          rw [hrep.others b hb.2, setRevents_of_ne _ hb.1]
      · obtain ⟨h', hfill, hrep⟩ := @ih _ activeChannels htail hfds.2
        rw [owners_cons_of_none hrev]
        refine ⟨h', ?_, ?_, ?_⟩
        · rw [List.countP_cons_of_neg hrev, fill]
          by_cases hpos : (0 : Int) < (pollfds.countP ready : Nat)
          · rw [if_pos hpos, if_neg hrev, hfill]
          · -- no slot with events is left
            have hzero : pollfds.countP ready = 0 := by omega
            rw [if_neg hpos, ← hfill, hzero]
            exact (fill_stop (Int.lt_irrefl 0)).symm
        · intro b x hx hxrev hxfind
          rcases List.mem_cons.mp hx with rfl | hx
          · exact absurd hxrev hrev
          · exact hrep.owner b x hx hxrev hxfind
        · intro b hb
          rw [owners_cons_of_none hrev] at hb
          exact hrep.others b hb

/-! ## A poll behind the invariant -/

variable {p : PollPoller} {pollfds : List PollFd} {numEvents : Int}

/-- `::poll` leaves the descriptors and events where they are. -/
theorem PollResult.getElem? (hres : p.PollResult pollfds numEvents) (i : Nat) :
    pollfds[i]?.map (fun pfd => (pfd.fd, pfd.events)) =
      p.pollfds[i]?.map fun pfd => (pfd.fd, pfd.events) := by
  rw [← List.getElem?_map, hres.same, List.getElem?_map]

theorem PollResult.old (hres : p.PollResult pollfds numEvents) {i : Nat} {pfd : PollFd}
    (hi : pollfds[i]? = some pfd) :
    ∃ old, p.pollfds[i]? = some old ∧ old.fd = pfd.fd ∧ old.events = pfd.events := by
  have hmap := hres.getElem? i
  rw [hi, Option.map_some] at hmap
  obtain ⟨old, hold, heq⟩ := Option.map_eq_some_iff.mp hmap.symm
  rw [Prod.mk.injEq] at heq
  exact ⟨old, hold, heq.1, heq.2⟩

theorem PollResult.kept (hres : p.PollResult pollfds numEvents) {i : Nat} {old : PollFd}
    (hi : p.pollfds[i]? = some old) :
    ∃ pfd, pollfds[i]? = some pfd ∧ pfd.fd = old.fd ∧ pfd.events = old.events := by
  have hmap := hres.getElem? i
  rw [hi, Option.map_some] at hmap
  obtain ⟨pfd, hpfd, heq⟩ := Option.map_eq_some_iff.mp hmap
  rw [Prod.mk.injEq] at heq
  exact ⟨pfd, hpfd, heq.1, heq.2⟩

theorem PollResult.length (hres : p.PollResult pollfds numEvents) :
    pollfds.length = p.pollfds.length := by
  calc pollfds.length = (pollfds.map fun pfd => (pfd.fd, pfd.events)).length :=
        (List.length_map ..).symm
    _ = (p.pollfds.map fun pfd => (pfd.fd, pfd.events)).length := by rw [hres.same]
    _ = p.pollfds.length := List.length_map ..

/-- The invariant does not look at `revents`. -/
theorem WF.polled (hwf : p.WF h) (hres : p.PollResult pollfds numEvents) :
    WF { p with pollfds := pollfds } h where
  fd := hwf.fd
  slot := by
    intro fd a ha
    obtain ⟨i, old, hi, hold, hhold⟩ := hwf.slot fd a ha
    obtain ⟨pfd, hpfd, hfd, hevents⟩ := hres.kept hold
    refine ⟨i, pfd, hi, hpfd, ?_, hevents.trans hhold.events⟩
    rw [hfd]
    exact hhold.fd
  owner := by
    intro i pfd hpfd
    obtain ⟨old, hold, hfd, -⟩ := hres.old hpfd
    obtain ⟨a, ha, hi⟩ := hwf.owner i old hold
    exact ⟨a, hfd ▸ ha, hi⟩
  size := hwf.size.trans hres.length.symm

/-- Two slots have two descriptors. -/
theorem WF.nodup_fds (hwf : p.WF h) : (p.pollfds.map PollFd.fd).Nodup := by
  rw [List.Nodup, List.pairwise_map, List.pairwise_iff_getElem]
  intro i j hi hj hlt heq
  obtain ⟨a, ha, hai⟩ := hwf.owner i _ (List.getElem?_eq_getElem hi)
  obtain ⟨b, hb, hbj⟩ := hwf.owner j _ (List.getElem?_eq_getElem hj)
  rw [heq, hb, Option.some.injEq] at ha
  rw [ha, hai] at hbj
  have hij : i = j := by exact_mod_cast hbj
  omega

/-- A slot with events belongs to a channel, which the look-up of its descriptor finds. -/
theorem WF.owned (hwf : p.WF h)
    (hneg : ∀ pfd ∈ p.pollfds, pfd.fd < 0 → pfd.revents = Events.none) :
    Owned p.channels h p.pollfds := by
  intro pfd hmem hready
  have hnonneg : 0 ≤ pfd.fd := by
    by_contra hlt
    rw [ready, hneg pfd hmem (by omega)] at hready
    cases hready
  obtain ⟨i, hi⟩ := List.mem_iff_getElem?.mp hmem
  obtain ⟨a, ha, -⟩ := hwf.owner i pfd hi
  have hfdOf : fdOf pfd.fd = pfd.fd.toNat := by rw [fdOf, if_neg (by omega)]
  rw [hfdOf] at ha
  refine ⟨a, ?_, ?_⟩
  · rw [find, if_pos hnonneg]
    exact ha
  · rw [hwf.fd _ a ha]
    exact Int.toNat_of_nonneg hnonneg

/-- What `fillActiveChannels` has to report: the owners of the slots with events. -/
structure Dispatched (p : PollPoller) (h h' : Channels) (reported : List ChannelPtr) :
    Prop where
  nodup : reported.Nodup
  mem : ∀ a, a ∈ reported ↔
    ∃ pfd, p.channels.lookup (h a).fd = some a ∧ p.Slot h a pfd ∧ ready pfd = true
  revents : ∀ a pfd, a ∈ reported → p.Slot h a pfd → h' a = { h a with revents := pfd.revents }
  others : ∀ a, a ∉ reported → h' a = h a

/-- The owners by their slots, and by the look-up of the descriptors. -/
theorem WF.slot_iff (hwf : p.WF h) {pfd : PollFd} (hnonneg : 0 ≤ pfd.fd) :
    p.channels.lookup (h channel).fd = some channel ∧ p.Slot h channel pfd ↔
      pfd ∈ p.pollfds ∧ find p.channels pfd.fd = some channel := by
  constructor
  · rintro ⟨hreg, i, hi, hpfd⟩
    refine ⟨List.mem_iff_getElem?.mpr ⟨i, hpfd⟩, ?_⟩
    obtain ⟨x, hx, hhold⟩ := hwf.registered_slot hreg
    have hsame : x = pfd := hx.unique ⟨i, hi, hpfd⟩
    subst hsame
    have hfd : x.fd = (h channel).fd := by
      rcases hhold.fd with hfd | hfd
      · exact hfd
      · omega
    rw [hfd, find_natCast]
    exact hreg
  · rintro ⟨hmem, hfind⟩
    obtain ⟨n, hn, hlookup⟩ := find_eq_some hfind
    obtain ⟨i, hi⟩ := List.mem_iff_getElem?.mp hmem
    obtain ⟨a, ha, hai⟩ := hwf.owner i pfd hi
    have hfdOf : fdOf pfd.fd = n := by
      rw [fdOf, if_neg (by omega)]
      omega
    rw [hfdOf, hlookup, Option.some.injEq] at ha
    subst ha
    exact ⟨by rw [hwf.fd n channel hlookup]; exact hlookup, i, hai, hi⟩

/-- `fillActiveChannels` behind any `::poll`. -/
theorem WF.dispatch (hwf : p.WF h) (hres : p.PollResult pollfds numEvents)
    (activeChannels : List ChannelPtr) :
    ∃ h' reported, fillActiveChannels { p with pollfds := pollfds } numEvents h activeChannels =
        .ok (h', activeChannels ++ reported) ∧
      Dispatched { p with pollfds := pollfds } h h' reported := by
  have hwf' := hwf.polled hres
  have howned : Owned p.channels h pollfds := hwf'.owned hres.negative
  obtain ⟨h', hfill, hrep⟩ := @fill_eq _ h pollfds activeChannels howned hwf'.nodup_fds
  refine ⟨h', owners p.channels pollfds, ?_, nodup_owners howned hwf'.nodup_fds, ?_, ?_,
    hrep.others⟩
  · rw [hres.count]
    exact hfill
  · intro a
    rw [mem_owners]
    constructor
    · rintro ⟨pfd, hmem, hready, hfind⟩
      obtain ⟨n, hn, -⟩ := find_eq_some hfind
      obtain ⟨hreg, hslot⟩ := (hwf'.slot_iff (by omega)).mpr ⟨hmem, hfind⟩
      exact ⟨pfd, hreg, hslot, hready⟩
    · rintro ⟨pfd, hreg, hslot, hready⟩
      have hmem : pfd ∈ pollfds := by
        obtain ⟨i, -, hpfd⟩ := hslot
        exact List.mem_iff_getElem?.mpr ⟨i, hpfd⟩
      obtain ⟨b, hfind, hfd⟩ := howned pfd hmem hready
      obtain ⟨-, hfind'⟩ := (hwf'.slot_iff (by omega)).mp ⟨hreg, hslot⟩
      exact ⟨pfd, hmem, hready, hfind'⟩
  · intro a pfd hmem hslot
    obtain ⟨x, hx, hready, hfind⟩ := mem_owners.mp hmem
    obtain ⟨n, hn, -⟩ := find_eq_some hfind
    have hxslot := ((hwf'.slot_iff (by omega)).mpr ⟨hx, hfind⟩).2
    rw [hslot.unique hxslot]
    exact hrep.owner a x hx hready hfind

/-! ## Runs -/

/-- A call of the poller. `updateChannel` comes after the channel has set its events. -/
inductive Call
  | updateChannel (channel : ChannelPtr) (events : Events)
  | removeChannel (channel : ChannelPtr)
  | poll (pollfds : List PollFd) (numEvents : Int)

def step (s : Loop PollPoller) : Call → Except Assertion (Loop PollPoller)
  | .updateChannel channel events => do
      let h := Function.update s.channels channel { s.channels channel with events := events }
      let r ← s.poller.updateChannel channel h
      .ok { poller := r.1, channels := r.2 }
  | .removeChannel channel => do
      let r ← s.poller.removeChannel channel s.channels
      .ok { poller := r.1, channels := r.2 }
  | .poll pollfds numEvents => do
      -- the loop clears `activeChannels_` first
      let r ← s.poller.poll pollfds numEvents s.channels []
      .ok { poller := r.1, channels := r.2.1 }

/-- The calls on a new poller, with the channels `h`. -/
def runs (h : Channels) : System (Loop PollPoller) Call Assertion where
  init s := s = { poller := PollPoller.new, channels := h }
  step s call := some (step s call)

/-- `::poll` does what it says. -/
def Polls (s : Loop PollPoller) : Call → Prop
  | .poll pollfds numEvents => s.poller.PollResult pollfds numEvents
  | _ => True

/-- A slot for each channel. -/
structure Slots (s : Loop PollPoller) : Prop where
  size : s.poller.channels.keys.length = s.poller.pollfds.length
  slot : ∀ fd a, s.poller.channels.lookup fd = some a →
    ∃ pfd, s.poller.Slot s.channels a pfd ∧ Holds pfd (s.channels a)
  distinct : ∀ fd fd' a b, s.poller.channels.lookup fd = some a →
    s.poller.channels.lookup fd' = some b → a ≠ b →
    (s.channels a).index ≠ (s.channels b).index

variable {s : Loop PollPoller}

theorem WF.slots (hwf : s.poller.WF s.channels) : Slots s where
  size := hwf.size
  slot := fun _ _ ha => hwf.registered_slot ha
  distinct := by
    intro fd fd' a b ha hb hne heq
    have hfd := hwf.index_inj ha hb heq
    rw [hfd, hb, Option.some.injEq] at ha
    exact hne ha.symm

theorem agrees_reported {h' : Channels} {reported : List ChannelPtr}
    (hd : p.Dispatched h h' reported) : Poller.Agrees h h' := by
  intro a
  by_cases ha : a ∈ reported
  · obtain ⟨pfd, -, hslot, -⟩ := (hd.mem a).mp ha
    rw [hd.revents a pfd ha hslot]
    exact ⟨rfl, rfl, rfl⟩
  · rw [hd.others a ha]
    exact ⟨rfl, rfl, rfl⟩

/-- `updateChannel`, where its assertions hold. -/
theorem WF.updateChannel (hwf : s.poller.WF s.channels) (channel : ChannelPtr)
    (events : Events) :
    Ends (fun t : Loop PollPoller => t.poller.WF t.channels) (fun e => e ≠ .nullChannel)
      (step s (.updateChannel channel events)) := by
  set c : Channel := { s.channels channel with events := events } with hc
  have hself : Function.update s.channels channel c channel = c := Function.update_self ..
  have hends := updateChannel_ends s.poller channel (Function.update s.channels channel c)
  rw [step]
  cases hr : s.poller.updateChannel channel (Function.update s.channels channel c) with
  | error e =>
      rw [hr] at hends
      exact hends
  | ok r =>
      rw [hr] at hends
      rcases hends with ⟨hnone, hneg⟩ | hreg
      · rw [hself] at hnone hneg
        obtain ⟨p', h', hok, hwf', -⟩ := updateChannel_new (c := c) hwf hnone hneg rfl rfl
        rw [hok, Except.ok.injEq] at hr
        subst hr
        exact hwf'
      · rw [hself] at hreg
        obtain ⟨p', h', hok, hwf', -⟩ := updateChannel_registered (c := c) hwf hreg rfl rfl
        rw [hok, Except.ok.injEq] at hr
        subst hr
        exact hwf'

/-- `removeChannel`, where its assertions hold. -/
theorem WF.removeChannel (hwf : s.poller.WF s.channels) (channel : ChannelPtr) :
    Ends (fun t : Loop PollPoller => t.poller.WF t.channels) (fun e => e ≠ .nullChannel)
      (step s (.removeChannel channel)) := by
  have hends := removeChannel_ends s.poller channel s.channels
  rw [step]
  cases hr : s.poller.removeChannel channel s.channels with
  | error e =>
      rw [hr] at hends
      rintro rfl
      -- a slot whose owner is not registered would have to be there
      obtain ⟨p', h', hok, -⟩ := removeChannel_spec hwf (hends rfl)
      rw [hok] at hr
      cases hr
  | ok r =>
      rw [hr] at hends
      obtain ⟨p', h', hok, hwf', -⟩ := removeChannel_spec hwf hends
      rw [hok, Except.ok.injEq] at hr
      subst hr
      exact hwf'

/-- `poll` reports what `fillActiveChannels` does. -/
theorem WF.poll_eq {h : Channels} (hwf : p.WF h) {pollfds : List PollFd} {numEvents : Int}
    (hres : p.PollResult pollfds numEvents) :
    ∃ h' reported, p.poll pollfds numEvents h [] =
        .ok ({ p with pollfds := pollfds }, h', reported) ∧
      Dispatched { p with pollfds := pollfds } h h' reported := by
  obtain ⟨h', reported, hfill, hd⟩ := hwf.dispatch hres []
  rw [List.nil_append] at hfill
  rw [PollPoller.poll]
  by_cases hpos : 0 < numEvents
  · refine ⟨h', reported, ?_, hd⟩
    rw [if_pos hpos, hfill]
    rfl
  · -- no slot has events, so none would have been reported
    have hstop : fillActiveChannels { p with pollfds := pollfds } numEvents h [] = .ok (h, []) :=
      fill_stop hpos
    rw [hfill, Except.ok.injEq, Prod.mk.injEq] at hstop
    obtain ⟨rfl, rfl⟩ := hstop
    refine ⟨h', [], ?_, hd⟩
    rw [if_neg hpos]

/-- A poll and its dispatch. -/
theorem WF.poll (hwf : s.poller.WF s.channels) {pollfds : List PollFd} {numEvents : Int}
    (hres : s.poller.PollResult pollfds numEvents) :
    ∃ t, step s (.poll pollfds numEvents) = .ok t ∧ t.poller.WF t.channels := by
  obtain ⟨h', reported, hpoll, hd⟩ := hwf.poll_eq hres
  rw [step, hpoll]
  exact ⟨_, rfl, (hwf.polled hres).agrees (agrees_reported hd)⟩

/-- How a call ends: the invariant holds behind it, or an assertion of it has failed. -/
theorem WF.step (hwf : s.poller.WF s.channels) {call : Call} (hcall : Polls s call) :
    Ends (fun t : Loop PollPoller => t.poller.WF t.channels) (fun e => e ≠ .nullChannel)
      (step s call) := by
  cases call with
  | updateChannel channel events => exact hwf.updateChannel channel events
  | removeChannel channel => exact hwf.removeChannel channel
  | poll pollfds numEvents =>
      obtain ⟨t, ht, hwf'⟩ := hwf.poll hcall
      rw [ht]
      exact hwf'

theorem reachable_wf {h : Channels} (hr : (runs h).Reachable Polls s) :
    s.poller.WF s.channels := by
  apply hr.invariant (I := fun s => s.poller.WF s.channels)
  · rintro _ rfl
    exact new_wf h
  · intro s call t hwf hcall hn
    have hends := hwf.step hcall
    have hn' : PollPoller.step s call = .ok t := Option.some.inj hn
    rw [hn'] at hends
    exact hends

/-- Behind any calls whose assertions hold, channels and slots correspond one to one; whatever
`::poll` then returns, `fillActiveChannels` reports the owners of the slots with events, each
once and with the events of its slot; and `removeChannel` finds the owner of the last slot. -/
theorem slots_and_dispatch {h : Channels} (hr : (runs h).Reachable Polls s) :
    Slots s ∧
    (∀ pollfds numEvents activeChannels, s.poller.PollResult pollfds numEvents →
      ∃ h' reported, fillActiveChannels { s.poller with pollfds := pollfds } numEvents
          s.channels activeChannels = .ok (h', activeChannels ++ reported) ∧
        Dispatched { s.poller with pollfds := pollfds } s.channels h' reported) ∧
    ∀ call, Polls s call → ¬ (runs h).Fails s call .nullChannel := by
  have hwf := reachable_wf hr
  refine ⟨hwf.slots, fun pollfds n activeChannels hres => hwf.dispatch hres activeChannels, ?_⟩
  intro call hcall hf
  have hends := hwf.step hcall
  have hf' : PollPoller.step s call = .error .nullChannel := Option.some.inj hf
  rw [hf'] at hends
  exact hends rfl

/-- Two channels are added, the first is disabled and removed, and the second, which has taken
over its slot, is readable. -/
theorem slots_and_dispatch_sample : ∃ s : Loop PollPoller, (runs Channel.new).Reachable Polls s ∧
    s.poller.pollfds = [{ fd := 1, events := kReadEvent, revents := Events.none }] ∧
    ∃ h' reported, fillActiveChannels { s.poller with
        pollfds := [{ fd := 1, events := kReadEvent, revents := kReadEvent }] } 1 s.channels [] =
      .ok (h', [] ++ reported) ∧ (1 ∈ reported) := by
  have hrun := System.run_of_exec (rfl : (runs Channel.new).exec
    ⟨PollPoller.new, Channel.new⟩
    [.updateChannel 0 kReadEvent, .updateChannel 1 kReadEvent, .updateChannel 0 kNoneEvent,
      .removeChannel 0] = some (.ok _))
  have hpolls := hrun.of_actions (Q := Polls) (by
    intro call hcall u
    simp only [List.mem_cons, List.not_mem_nil, or_false] at hcall
    rcases hcall with rfl | rfl | rfl | rfl <;> trivial)
  have hreach : (runs Channel.new).Reachable Polls _ := ⟨_, _, rfl, hpolls⟩
  obtain ⟨-, hdispatch, -⟩ := slots_and_dispatch hreach
  obtain ⟨h', reported, hfill, hd⟩ := hdispatch
    [{ fd := 1, events := kReadEvent, revents := kReadEvent }] 1 [] ⟨rfl, by decide, rfl⟩
  refine ⟨_, hreach, ?_, h', reported, hfill, ?_⟩
  · rfl
  · exact (hd.mem 1).mpr ⟨_, rfl, ⟨0, rfl, rfl⟩, rfl⟩

end Zing.Net.PollPoller
