import Zing.Net.Poller

set_option autoImplicit false

/-! # `PollPoller`

The poller over `poll`. A registered channel owns one slot of `pollfds_`, at the position its
index says, and the slot holds its descriptor, or `-fd - 1` while the channel watches nothing;
`removeChannel` fills the slot it frees with the last one. `WF` says that slots and channels
correspond one to one.
-/

namespace Zing.Net

open Zing.Lib
open Poller (Assertion setIndex checkRegistered)

/-- `struct pollfd` -/
structure PollFd where
  fd : Int
  events : Events
  revents : Events
  deriving DecidableEq, Repr

/-- The fields of `PollPoller`, `channels_` being the one of its base class. -/
structure PollPoller where
  channels : ChannelMap
  pollfds : List PollFd

namespace PollPoller

def new : PollPoller where
  channels := ∅
  pollfds := []

/-- `updateChannel` appends a slot for a channel that has none, and its position becomes the index
of the channel. For a registered one it writes the events anew and gives the slot the descriptor,
or `-fd - 1` where the channel watches nothing. -/
def updateChannel (p : PollPoller) (channel : ChannelPtr) (h : Channels) :
    Except Assertion (PollPoller × Channels) :=
  let c := h channel
  if c.index < 0 then do
    check (p.channels.lookup c.fd = none) .unregistered
    let pfd : PollFd := { fd := c.fd, events := c.events, revents := Events.none }
    .ok ({ channels := p.channels.insert c.fd channel, pollfds := p.pollfds ++ [pfd] },
      setIndex h channel p.pollfds.length)
  else do
    checkRegistered p.channels channel c.fd
    let idx := c.index.toNat
    match p.pollfds[idx]? with
    | none => .error .index
    | some pfd => do
        check (pfd.fd = c.fd ∨ pfd.fd = -c.fd - 1) .slot
        let fd : Int := if c.isNoneEvent = true then -c.fd - 1 else c.fd
        let pfd : PollFd := { fd := fd, events := c.events, revents := Events.none }
        .ok ({ p with pollfds := p.pollfds.set idx pfd }, h)

/-- The descriptor that `removeChannel` reads off the last slot. -/
def fdOf (channelAtEnd : Int) : Nat :=
  if channelAtEnd < 0 then (-channelAtEnd - 1).toNat else channelAtEnd.toNat

/-- `removeChannel` asserts that the channel is registered, watches nothing and has a slot that
says so. The last slot then takes the place of the freed one, and its owner the index. -/
def removeChannel (p : PollPoller) (channel : ChannelPtr) (h : Channels) :
    Except Assertion (PollPoller × Channels) := do
  let c := h channel
  checkRegistered p.channels channel c.fd
  check (c.isNoneEvent = true) .noneEvent
  check (0 ≤ c.index) .index
  let idx := c.index.toNat
  match p.pollfds[idx]?, p.pollfds.getLast? with
  | some pfd, some last => do
      check (pfd.fd = -c.fd - 1 ∧ pfd.events = c.events) .slot
      let channels := p.channels.erase c.fd
      if idx = p.pollfds.length - 1 then
        .ok ({ channels := channels, pollfds := p.pollfds.dropLast }, h)
      else
        match channels.lookup (fdOf last.fd) with
        | none => .error .nullChannel
        | some atEnd =>
            -- the last slot is swapped into the free one, then the vector is shortened
            .ok ({ channels := channels, pollfds := (p.pollfds.set idx last).dropLast },
              setIndex h atEnd idx)
  | _, _ => .error .index

/-- The descriptors that `poll` looks at: those of the slots that are not negative. -/
def watches (p : PollPoller) (fd : Nat) : Bool := p.pollfds.any fun pfd => pfd.fd = fd

/-! ## The invariant

The code writes slots of three kinds: the one it appends, the one of a registered channel, and
the freed one that takes over the last. Each of these keeps the invariant, and each leaves every
other channel a slot with the same content, which is how the events of a channel stay its own.
-/

/-- The slot is that of the channel `c`. -/
structure Holds (pfd : PollFd) (c : Channel) : Prop where
  fd : pfd.fd = c.fd ∨ pfd.fd = -c.fd - 1
  events : pfd.events = c.events

/-- Enabled or disabled, the slot of a channel gives back its descriptor. -/
theorem Holds.fdOf_eq {pfd : PollFd} {c : Channel} (h : Holds pfd c) : fdOf pfd.fd = c.fd := by
  unfold fdOf
  rcases h.fd with hfd | hfd
  · rw [hfd, if_neg (by omega)]
    omega
  · rw [hfd, if_pos (by omega)]
    omega

/-- A channel is registered under its own descriptor, its index is the position of a slot that
holds it, and every slot is the one of a registered channel. There are as many channels as slots.
-/
structure WF (p : PollPoller) (h : Channels) : Prop where
  fd : ∀ fd a, p.channels.lookup fd = some a → (h a).fd = fd
  slot : ∀ fd a, p.channels.lookup fd = some a →
    ∃ (i : Nat) (pfd : PollFd), (h a).index = i ∧ p.pollfds[i]? = some pfd ∧ Holds pfd (h a)
  owner : ∀ (i : Nat) (pfd : PollFd), p.pollfds[i]? = some pfd →
    ∃ a, p.channels.lookup (fdOf pfd.fd) = some a ∧ (h a).index = i
  size : p.channels.keys.length = p.pollfds.length

theorem new_wf (h : Channels) : new.WF h where
  fd := by intro fd a ha; cases ha
  slot := by intro fd a ha; cases ha
  owner := by intro i pfd hi; cases hi
  size := rfl

/-- The slot of the channel, at the position that its index says. -/
def Slot (p : PollPoller) (h : Channels) (channel : ChannelPtr) (pfd : PollFd) : Prop :=
  ∃ i : Nat, (h channel).index = i ∧ p.pollfds[i]? = some pfd

/-- The slot of the channel holds `-fd - 1`. -/
def Disabled (p : PollPoller) (h : Channels) (channel : ChannelPtr) : Prop :=
  ∃ (i : Nat) (pfd : PollFd), (h channel).index = i ∧ p.pollfds[i]? = some pfd ∧
    pfd.fd = -(h channel).fd - 1

/-- A channel that `updateChannel` may be called for: a new one, or a registered one. -/
def CanUpdate (p : PollPoller) (h : Channels) (channel : ChannelPtr) : Prop :=
  (p.channels.lookup (h channel).fd = none ∧ (h channel).index < 0) ∨
    p.channels.lookup (h channel).fd = some channel

/-- A channel that `removeChannel` may be called for. -/
def CanRemove (p : PollPoller) (h : Channels) (channel : ChannelPtr) : Prop :=
  p.channels.lookup (h channel).fd = some channel ∧ (h channel).isNoneEvent = true ∧
    p.Disabled h channel

variable {p : PollPoller} {h : Channels} {channel : ChannelPtr}

/-- `WF` reads the descriptor, the index and the events of a channel only. -/
theorem WF.agrees {h' : Channels} (hwf : p.WF h) (ha : Poller.Agrees h h') : p.WF h' where
  fd := by
    intro fd a hl
    rw [(ha a).1]
    exact hwf.fd fd a hl
  slot := by
    intro fd a hl
    obtain ⟨i, pfd, hi, hpfd, hhold⟩ := hwf.slot fd a hl
    refine ⟨i, pfd, (ha a).2.1.trans hi, hpfd, ?_, hhold.events.trans (ha a).2.2.symm⟩
    rw [(ha a).1]
    exact hhold.fd
  owner := by
    intro i pfd hpfd
    obtain ⟨a, hl, hi⟩ := hwf.owner i pfd hpfd
    exact ⟨a, hl, (ha a).2.1.trans hi⟩
  size := hwf.size

theorem Disabled.agrees {h' : Channels} (hd : p.Disabled h channel) (ha : Poller.Agrees h h') :
    p.Disabled h' channel := by
  obtain ⟨i, pfd, hi, hpfd, hfd⟩ := hd
  refine ⟨i, pfd, (ha channel).2.1.trans hi, hpfd, ?_⟩
  rw [(ha channel).1]
  exact hfd

/-- `Disabled`, said of the slot of the channel. -/
theorem disabled_iff :
    p.Disabled h channel ↔ ∃ pfd, p.Slot h channel pfd ∧ pfd.fd = -(h channel).fd - 1 := by
  constructor
  · rintro ⟨i, pfd, hi, hpfd, hfd⟩
    exact ⟨pfd, ⟨i, hi, hpfd⟩, hfd⟩
  · rintro ⟨pfd, ⟨i, hi, hpfd⟩, hfd⟩
    exact ⟨i, pfd, hi, hpfd, hfd⟩

/-- A channel has one slot. -/
theorem Slot.unique {pfd pfd' : PollFd} (hs : p.Slot h channel pfd) (hs' : p.Slot h channel pfd') :
    pfd = pfd' := by
  obtain ⟨i, hi, hpfd⟩ := hs
  obtain ⟨j, hj, hpfd'⟩ := hs'
  have hij : i = j := by
    rw [hi] at hj
    exact_mod_cast hj
  rw [hij, hpfd', Option.some.injEq] at hpfd
  exact hpfd.symm

/-- A registered channel has a slot, and the slot holds it. -/
theorem WF.registered_slot (hwf : p.WF h) {fd : Nat}
    (ha : p.channels.lookup fd = some channel) :
    ∃ pfd, p.Slot h channel pfd ∧ Holds pfd (h channel) := by
  obtain ⟨i, pfd, hi, hpfd, hhold⟩ := hwf.slot fd channel ha
  exact ⟨pfd, ⟨i, hi, hpfd⟩, hhold⟩

/-- What keeps the slot of a channel keeps it disabled. -/
theorem Disabled.of_slots {p' : PollPoller} {h' : Channels} (hd : p.Disabled h channel)
    (hslot : ∀ pfd, p.Slot h channel pfd → p'.Slot h' channel pfd)
    (hfd : (h' channel).fd = (h channel).fd) : p'.Disabled h' channel := by
  obtain ⟨pfd, hpfd, hneg⟩ := disabled_iff.mp hd
  rw [disabled_iff, hfd]
  exact ⟨pfd, hslot pfd hpfd, hneg⟩

/-- `poll` looks at a registered channel unless its slot holds `-fd - 1`. -/
theorem WF.watches_iff (hwf : p.WF h)
    (hreg : p.channels.lookup (h channel).fd = some channel) {pfd : PollFd}
    (hpfd : p.Slot h channel pfd) :
    p.watches (h channel).fd = true ↔ pfd.fd = (h channel).fd := by
  obtain ⟨i, hi, hget⟩ := hpfd
  rw [watches, List.any_eq_true]
  constructor
  · rintro ⟨x, hx, hfd⟩
    obtain ⟨j, hj⟩ := List.mem_iff_getElem?.mp hx
    have hxfd : x.fd = (h channel).fd := of_decide_eq_true hfd
    -- the slot that holds the descriptor belongs to the channel
    obtain ⟨b, hb, hbj⟩ := hwf.owner j x hj
    have hfdOf : fdOf x.fd = (h channel).fd := by
      rw [hxfd, fdOf, if_neg (by omega)]
      omega
    rw [hfdOf, hreg, Option.some.injEq] at hb
    subst hb
    have hij : j = i := by
      rw [hi] at hbj
      exact_mod_cast hbj.symm
    rw [hij, hget, Option.some.injEq] at hj
    rw [hj]
    exact hxfd
  · intro hfd
    exact ⟨pfd, List.mem_iff_getElem?.mpr ⟨i, hget⟩, decide_eq_true hfd⟩

/-- Two descriptors have two channels. -/
theorem WF.ptr_ne (hwf : p.WF h) {fd : Nat} {a : ChannelPtr}
    (ha : p.channels.lookup fd = some a) (hfd : fd ≠ (h channel).fd) : a ≠ channel := by
  rintro rfl
  exact hfd (hwf.fd fd a ha).symm

/-- Two channels have two slots. -/
theorem WF.index_inj (hwf : p.WF h) {fd fd' : Nat} {a b : ChannelPtr}
    (ha : p.channels.lookup fd = some a) (hb : p.channels.lookup fd' = some b)
    (heq : (h a).index = (h b).index) : fd = fd' := by
  obtain ⟨i, pfd, hi, hpfd, hslot⟩ := hwf.slot fd a ha
  obtain ⟨j, pfd', hj, hpfd', hslot'⟩ := hwf.slot fd' b hb
  have hij : i = j := by
    rw [hi, hj] at heq
    exact_mod_cast heq
  rw [hij, hpfd', Option.some.injEq] at hpfd
  calc fd = (h a).fd := (hwf.fd fd a ha).symm
    _ = fdOf pfd.fd := hslot.fdOf_eq.symm
    _ = fdOf pfd'.fd := by rw [hpfd]
    _ = (h b).fd := hslot'.fdOf_eq
    _ = fd' := hwf.fd fd' b hb

/-- Two channels have their slots at two positions. -/
theorem WF.slot_ne (hwf : p.WF h) {fd fd' : Nat} {a b : ChannelPtr}
    (ha : p.channels.lookup fd = some a) (hb : p.channels.lookup fd' = some b) (hne : a ≠ b)
    {i j : Nat} (hi : (h a).index = i) (hj : (h b).index = j) : i ≠ j := by
  rintro rfl
  have hfd := hwf.index_inj ha hb (hi.trans hj.symm)
  rw [hfd, hb, Option.some.injEq] at ha
  exact hne ha.symm

/-- A slot behind the others moves none of them. -/
theorem getElem?_append_of_some {pollfds : List PollFd} {i : Nat} {x pfd : PollFd}
    (hx : pollfds[i]? = some x) : (pollfds ++ [pfd])[i]? = some x := by
  rw [List.getElem?_append_left (List.getElem?_eq_some_iff.mp hx).1]
  exact hx

/-! ## Updating

The channel has been changed to `c` before `updateChannel` is called for it, so the object that
the poller finds is `Function.update h channel c`, and the invariant is the one of `h`.
-/

/-- A new slot behind the others, for a channel that has none. -/
theorem WF.append (hwf : p.WF h) {fd : Nat} (hfd : (h channel).fd = fd)
    (hnone : p.channels.lookup fd = none) {pfd : PollFd} {h' : Channels}
    (hothers : ∀ b, b ≠ channel → h' b = h b) (hfd' : (h' channel).fd = fd)
    (hidx : (h' channel).index = p.pollfds.length) (hholds : Holds pfd (h' channel)) :
    WF { channels := p.channels.insert fd channel, pollfds := p.pollfds ++ [pfd] } h' := by
  have hcases : ∀ fd' a, (p.channels.insert fd channel).lookup fd' = some a →
      (fd' = fd ∧ a = channel) ∨ (fd' ≠ fd ∧ p.channels.lookup fd' = some a ∧ h' a = h a) := by
    intro fd' a ha
    rw [Poller.lookup_insert_eq] at ha
    by_cases hf : fd' = fd
    · rw [if_pos hf, Option.some.injEq] at ha
      exact Or.inl ⟨hf, ha.symm⟩
    · rw [if_neg hf] at ha
      exact Or.inr ⟨hf, ha, hothers a (hwf.ptr_ne ha (hfd ▸ hf))⟩
  refine { fd := ?_, slot := ?_, owner := ?_, size := ?_ }
  · intro fd' a ha
    rcases hcases fd' a ha with ⟨rfl, rfl⟩ | ⟨-, ha, heq⟩
    · exact hfd'
    · rw [heq]
      exact hwf.fd fd' a ha
  · intro fd' a ha
    rcases hcases fd' a ha with ⟨rfl, rfl⟩ | ⟨-, ha, heq⟩
    · exact ⟨p.pollfds.length, pfd, hidx, List.getElem?_concat_length, hholds⟩
    · obtain ⟨i, x, hi, hx, hhold⟩ := hwf.slot fd' a ha
      rw [heq]
      exact ⟨i, x, hi, getElem?_append_of_some hx, hhold⟩
  · intro i x hx
    by_cases hi : i < p.pollfds.length
    · rw [List.getElem?_append_left hi] at hx
      obtain ⟨a, ha, hai⟩ := hwf.owner i x hx
      -- the owner of an old slot is not the new channel
      have hne : fdOf x.fd ≠ fd := by
        intro heq
        rw [heq, hnone] at ha
        cases ha
      refine ⟨a, ?_, ?_⟩
      · rw [Poller.lookup_insert_eq, if_neg hne]
        exact ha
      · rw [hothers a (hwf.ptr_ne ha (hfd ▸ hne))]
        exact hai
    · have hlen := (List.getElem?_eq_some_iff.mp hx).1
      have hieq : i = p.pollfds.length := by
        rw [List.length_append, List.length_singleton] at hlen
        omega
      subst hieq
      rw [List.getElem?_concat_length, Option.some.injEq] at hx
      subst hx
      refine ⟨channel, ?_, hidx⟩
      rw [hholds.fdOf_eq, hfd']
      exact AList.lookup_insert _
  · have hnotMem : fd ∉ p.channels := AList.lookup_eq_none.mp hnone
    have hkeys : (p.channels.insert fd channel).keys = fd :: p.channels.keys := by
      rw [AList.keys_insert, List.erase_of_not_mem]
      exact fun hm => hnotMem (AList.mem_keys.mpr hm)
    show (p.channels.insert fd channel).keys.length = (p.pollfds ++ [pfd]).length
    rw [hkeys, List.length_cons, List.length_append, List.length_singleton, hwf.size]

/-- The slot of a registered channel is written anew. -/
theorem WF.set (hwf : p.WF h) (hreg : p.channels.lookup (h channel).fd = some channel) {i : Nat}
    (hi : (h channel).index = i) (hlen : i < p.pollfds.length) {pfd : PollFd} {h' : Channels}
    (hothers : ∀ b, b ≠ channel → h' b = h b) (hfd' : (h' channel).fd = (h channel).fd)
    (hidx : (h' channel).index = i) (hholds : Holds pfd (h' channel)) :
    WF { p with pollfds := p.pollfds.set i pfd } h' := by
  have hset : (p.pollfds.set i pfd)[i]? = some pfd := List.getElem?_set_self hlen
  have hkeep : ∀ j, j ≠ i → (p.pollfds.set i pfd)[j]? = p.pollfds[j]? :=
    fun j hj => List.getElem?_set_ne (Ne.symm hj)
  refine { fd := ?_, slot := ?_, owner := ?_, size := ?_ }
  · intro fd a ha
    by_cases hne : a = channel
    · subst hne
      rw [hfd']
      exact hwf.fd fd a ha
    · rw [hothers a hne]
      exact hwf.fd fd a ha
  · intro fd a ha
    by_cases hne : a = channel
    · subst hne
      exact ⟨i, pfd, hidx, hset, hholds⟩
    · obtain ⟨j, x, hj, hx, hx'⟩ := hwf.slot fd a ha
      rw [hothers a hne]
      refine ⟨j, x, hj, ?_, hx'⟩
      rw [hkeep j (hwf.slot_ne ha hreg hne hj hi)]
      exact hx
  · intro j x hx
    by_cases hj : j = i
    · subst hj
      rw [hset, Option.some.injEq] at hx
      subst hx
      refine ⟨channel, ?_, hidx⟩
      rw [hholds.fdOf_eq, hfd']
      exact hreg
    · rw [hkeep j hj] at hx
      obtain ⟨a, ha, hai⟩ := hwf.owner j x hx
      have hne : a ≠ channel := by
        rintro rfl
        apply hj
        rw [hi] at hai
        exact_mod_cast hai.symm
      exact ⟨a, ha, by rw [hothers a hne]; exact hai⟩
  · show p.channels.keys.length = (p.pollfds.set i pfd).length
    rw [List.length_set]
    exact hwf.size

/-- `updateChannel` for a new channel, whose object has become `c`. -/
theorem updateChannel_new (hwf : p.WF h) (hnone : p.channels.lookup (h channel).fd = none)
    (hneg : (h channel).index < 0) {c : Channel} (hfd : c.fd = (h channel).fd)
    (hidx : c.index = (h channel).index) :
    ∃ p' h', p.updateChannel channel (Function.update h channel c) = .ok (p', h') ∧ p'.WF h' ∧
      Poller.Updates p.channels p'.channels h h' channel c ∧
      (∀ b pfd, b ≠ channel → p.Slot h b pfd → p'.Slot h' b pfd) ∧
      p'.Slot h' channel { fd := c.fd, events := c.events, revents := Events.none } := by
  have hc : Function.update h channel c channel = c := Function.update_self ..
  have hneg' : c.index < 0 := hidx ▸ hneg
  rw [← hfd] at hnone
  have hnone' : p.channels.lookup (Function.update h channel c channel).fd = none := by
    rw [hc]
    exact hnone
  unfold updateChannel
  simp only [hc]
  rw [if_pos hneg', check_bind hnone']
  set pfd : PollFd := { fd := c.fd, events := c.events, revents := Events.none } with hpfd
  set h' := setIndex (Function.update h channel c) channel p.pollfds.length with hh'
  have hself : h' channel = { c with index := p.pollfds.length } := by
    rw [hh', Poller.setIndex_self, hc]
  have hothers : ∀ b, b ≠ channel → h' b = h b := by
    intro b hb
    rw [hh', Poller.setIndex_of_ne _ hb]
    exact Function.update_of_ne hb ..
  have hholds : Holds pfd (h' channel) := ⟨Or.inl (by rw [hself]), by rw [hself]⟩
  refine ⟨_, _, rfl, ?_, ⟨Poller.lookup_insert_eq _ _ _, ⟨_, hself⟩, hothers⟩, ?_,
    ⟨p.pollfds.length, by rw [hself], List.getElem?_concat_length⟩⟩
  · exact hwf.append hfd.symm hnone hothers (by rw [hself]) (by rw [hself]) hholds
  · rintro b x hb ⟨i, hi, hx⟩
    refine ⟨i, ?_, getElem?_append_of_some hx⟩
    rw [hothers b hb]
    exact hi

/-- `updateChannel` for a registered channel, whose object has become `c`. -/
theorem updateChannel_registered (hwf : p.WF h)
    (hreg : p.channels.lookup (h channel).fd = some channel) {c : Channel}
    (hfd : c.fd = (h channel).fd) (hidx : c.index = (h channel).index) :
    ∃ p' h', p.updateChannel channel (Function.update h channel c) = .ok (p', h') ∧ p'.WF h' ∧
      Poller.Updates p.channels p'.channels h h' channel c ∧
      (∀ b pfd, b ≠ channel → p.channels.lookup (h b).fd = some b → p.Slot h b pfd →
        p'.Slot h' b pfd) ∧
      p'.Slot h' channel
        { fd := if c.isNoneEvent = true then -c.fd - 1 else c.fd, events := c.events,
          revents := Events.none } := by
  obtain ⟨i, old, hi, hold, hhold⟩ := hwf.slot _ _ hreg
  have hregc : p.channels.lookup c.fd = some channel := hfd ▸ hreg
  have hc : Function.update h channel c channel = c := Function.update_self ..
  have hothers : ∀ b, b ≠ channel → Function.update h channel c b = h b :=
    fun b hb => Function.update_of_ne hb ..
  have hci : c.index = i := hidx.trans hi
  have hnotNeg : ¬ c.index < 0 := by omega
  have htoNat : c.index.toNat = i := by omega
  have hslot : old.fd = c.fd ∨ old.fd = -c.fd - 1 := by
    rw [hfd]
    exact hhold.fd
  unfold updateChannel
  simp only [hc]
  rw [if_neg hnotNeg, Poller.checkRegistered_ok hregc, ok_bind, htoNat]
  simp only [hold]
  rw [check_bind hslot]
  set pfd : PollFd :=
    { fd := if c.isNoneEvent = true then -c.fd - 1 else c.fd, events := c.events,
      revents := Events.none } with hpfd
  have hholds : Holds pfd c := by
    refine ⟨?_, rfl⟩
    rw [hpfd]
    by_cases hn : c.isNoneEvent = true
    · exact Or.inr (if_pos hn)
    · exact Or.inl (if_neg hn)
  have hlen : i < p.pollfds.length := (List.getElem?_eq_some_iff.mp hold).1
  refine ⟨_, _, rfl, ?_, ⟨Poller.lookup_registered hregc, ⟨c.index, hc⟩, hothers⟩, ?_,
    ⟨i, by rw [hc, hci], List.getElem?_set_self hlen⟩⟩
  · apply hwf.set hreg hi hlen hothers
    · rw [hc, hfd]
    · rw [hc, hci]
    · rw [hc]
      exact hholds
  · rintro b x hb hregb ⟨j, hj, hx⟩
    refine ⟨j, ?_, ?_⟩
    · rw [hothers b hb]
      exact hj
    · rw [List.getElem?_set_ne (Ne.symm (hwf.slot_ne hregb hreg hb hj hi))]
      exact hx

/-- The assertions of `updateChannel` hold of such channels only. -/
theorem updateChannel_ends (p : PollPoller) (channel : ChannelPtr) (h : Channels) :
    Ends (fun _ => p.CanUpdate h channel) (fun e => e ≠ .nullChannel)
      (p.updateChannel channel h) := by
  unfold updateChannel
  dsimp only
  split
  case isTrue hneg =>
    apply Ends.check (fun _ => nofun)
    intro hnone
    exact Or.inl ⟨hnone, hneg⟩
  case isFalse =>
    apply Ends.bind (Poller.checkRegistered_ends ⟨nofun, nofun⟩)
    intro _ hreg
    cases p.pollfds[(h channel).index.toNat]? with
    | none => exact nofun
    | some pfd =>
        apply Ends.check (fun _ => nofun)
        intro _
        exact Or.inr hreg

/-! ## Removing

Either the slot of the channel is the last one and the vector is shortened, or the last slot moves
into it. In the second case one other channel changes: the owner of the last slot.
-/

/-- The assertions of `removeChannel` hold of such channels only. -/
theorem removeChannel_ends (p : PollPoller) (channel : ChannelPtr) (h : Channels) :
    Ends (fun _ => p.CanRemove h channel)
      (fun e => e = .nullChannel → p.CanRemove h channel) (p.removeChannel channel h) := by
  apply Ends.bind (Poller.checkRegistered_ends ⟨nofun, nofun⟩)
  intro _ hreg
  apply Ends.check (by intro _ hnull; cases hnull)
  intro hnone
  apply Ends.check (by intro _ hnull; cases hnull)
  intro hnonneg
  dsimp only
  cases hpfd : p.pollfds[(h channel).index.toNat]? with
  | none => intro hnull; cases hnull
  | some pfd =>
      cases p.pollfds.getLast? with
      | none => intro hnull; cases hnull
      | some last =>
          apply Ends.check (by intro _ hnull; cases hnull)
          intro hslot
          have hcan : p.CanRemove h channel :=
            ⟨hreg, hnone, _, pfd, (Int.toNat_of_nonneg hnonneg).symm, hpfd, hslot.1⟩
          split
          · exact hcan
          · split
            · exact fun _ => hcan
            · exact hcan

/-- A call that returns was made for a channel that may be removed. -/
theorem canRemove_of_ok {r : PollPoller × Channels} (hr : p.removeChannel channel h = .ok r) :
    p.CanRemove h channel := by
  have hends := removeChannel_ends p channel h
  rw [hr] at hends
  exact hends

/-- A slot other than `i` belongs to another channel than the one of `i`. -/
theorem WF.owner_ne (hwf : p.WF h) (hreg : p.channels.lookup (h channel).fd = some channel)
    {i : Nat} (hi : (h channel).index = i) {j : Nat} {x : PollFd} (hx : p.pollfds[j]? = some x)
    (hj : j ≠ i) : ∃ a, p.channels.lookup (fdOf x.fd) = some a ∧ (h a).index = j ∧
      fdOf x.fd ≠ (h channel).fd := by
  obtain ⟨a, ha, hai⟩ := hwf.owner j x hx
  refine ⟨a, ha, hai, ?_⟩
  intro hfd
  rw [hfd, hreg, Option.some.injEq] at ha
  rw [← ha, hi] at hai
  exact hj (by exact_mod_cast hai.symm)

/-- A channel that stays registered is another one. -/
theorem WF.stays (hwf : p.WF h) {fd : Nat} {a : ChannelPtr}
    (ha : (p.channels.erase (h channel).fd).lookup fd = some a) :
    p.channels.lookup fd = some a ∧ a ≠ channel := by
  rw [Poller.lookup_erase_eq] at ha
  by_cases hfd : fd = (h channel).fd
  · rw [if_pos hfd] at ha
    cases ha
  · rw [if_neg hfd] at ha
    exact ⟨ha, hwf.ptr_ne ha hfd⟩

/-- One channel less is one slot less. -/
theorem WF.size_erase (hwf : p.WF h)
    (hreg : p.channels.lookup (h channel).fd = some channel) :
    (p.channels.erase (h channel).fd).keys.length = p.pollfds.length - 1 := by
  rw [AList.keys_erase, List.length_erase_of_mem, hwf.size]
  rw [← AList.mem_keys, ← AList.lookup_isSome, hreg]
  rfl

/-- `removeChannel` behind its assertions: the channel has the slot `i`. -/
theorem removeChannel_eq (hwf : p.WF h) (hcan : p.CanRemove h channel) :
    ∃ (i : Nat) (last : PollFd), (h channel).index = i ∧ i < p.pollfds.length ∧
      p.pollfds[p.pollfds.length - 1]? = some last ∧ p.removeChannel channel h =
        if i = p.pollfds.length - 1 then
          .ok ({ channels := p.channels.erase (h channel).fd, pollfds := p.pollfds.dropLast }, h)
        else
          match (p.channels.erase (h channel).fd).lookup (fdOf last.fd) with
          | none => .error .nullChannel
          | some atEnd =>
              .ok ({ channels := p.channels.erase (h channel).fd,
                     pollfds := (p.pollfds.set i last).dropLast }, setIndex h atEnd i) := by
  obtain ⟨hreg, hnone, i, pfd, hi, hpfd, hdis⟩ := hcan
  have hslot : pfd.fd = -(h channel).fd - 1 ∧ pfd.events = (h channel).events := by
    obtain ⟨j, x, hj, hx, hhold⟩ := hwf.slot _ _ hreg
    have hij : i = j := by
      rw [hi] at hj
      exact_mod_cast hj
    rw [← hij, hpfd, Option.some.injEq] at hx
    exact ⟨hdis, hx ▸ hhold.events⟩
  have hlen : i < p.pollfds.length := (List.getElem?_eq_some_iff.mp hpfd).1
  have hnonneg : 0 ≤ (h channel).index := by omega
  have htoNat : (h channel).index.toNat = i := by omega
  obtain ⟨last, hlast⟩ : ∃ last, p.pollfds.getLast? = some last := by
    rw [← Option.isSome_iff_exists, List.getLast?_isSome]
    intro hnil
    rw [hnil] at hlen
    exact absurd hlen (Nat.not_lt_zero i)
  refine ⟨i, last, hi, hlen, ?_, ?_⟩
  · rw [← List.getLast?_eq_getElem?]
    exact hlast
  · unfold removeChannel
    simp only
    rw [Poller.checkRegistered_ok hreg, ok_bind, check_bind hnone, check_bind hnonneg, htoNat]
    simp only [hpfd, hlast]
    rw [check_bind hslot]

/-- The slot of the channel is the last one, and is cut off. -/
theorem WF.removeLast (hwf : p.WF h) (hreg : p.channels.lookup (h channel).fd = some channel)
    {i : Nat} (hi : (h channel).index = i) (hend : i = p.pollfds.length - 1) {p' : PollPoller}
    (hp' : p' =
      { channels := p.channels.erase (h channel).fd, pollfds := p.pollfds.dropLast }) :
    p'.WF h ∧ ∀ b pfd, b ≠ channel → p.channels.lookup (h b).fd = some b → p.Slot h b pfd →
      p'.Slot h b pfd := by
  subst hp'
  have hkeep : ∀ (j : Nat) (x : PollFd), p.pollfds[j]? = some x → j ≠ i →
      p.pollfds.dropLast[j]? = some x := by
    intro j x hx hj
    have hjlen := (List.getElem?_eq_some_iff.mp hx).1
    rw [List.getElem?_dropLast, if_pos (by omega)]
    exact hx
  constructor
  · refine { fd := ?_, slot := ?_, owner := ?_, size := ?_ }
    · intro fd a ha
      exact hwf.fd fd a (hwf.stays ha).1
    · intro fd a ha
      obtain ⟨ha', hne⟩ := hwf.stays ha
      obtain ⟨j, x, hj, hx, hhold⟩ := hwf.slot fd a ha'
      exact ⟨j, x, hj, hkeep j x hx (hwf.slot_ne ha' hreg hne hj hi), hhold⟩
    · intro j x hx
      rw [List.getElem?_dropLast] at hx
      split at hx
      · obtain ⟨a, ha, hai, hfd⟩ := hwf.owner_ne hreg hi hx (by omega)
        refine ⟨a, ?_, hai⟩
        rw [Poller.lookup_erase_eq, if_neg hfd]
        exact ha
      · cases hx
    · rw [List.length_dropLast]
      exact hwf.size_erase hreg
  · rintro b x hb hregb ⟨j, hj, hx⟩
    exact ⟨j, hj, hkeep j x hx (hwf.slot_ne hregb hreg hb hj hi)⟩

/-- The slot of the channel is another one, and takes over the last one. -/
theorem WF.removeSwap (hwf : p.WF h) (hreg : p.channels.lookup (h channel).fd = some channel)
    {i : Nat} (hi : (h channel).index = i) (hlen : i < p.pollfds.length)
    (hend : i ≠ p.pollfds.length - 1) {last : PollFd}
    (hlast : p.pollfds[p.pollfds.length - 1]? = some last) {b : ChannelPtr}
    (hb : p.channels.lookup (fdOf last.fd) = some b)
    (hbi : (h b).index = (p.pollfds.length - 1 : Nat)) (hbne : fdOf last.fd ≠ (h channel).fd)
    {p' : PollPoller} (hp' : p' =
      { channels := p.channels.erase (h channel).fd,
        pollfds := (p.pollfds.set i last).dropLast }) :
    p'.WF (setIndex h b i) ∧ ∀ a pfd, a ≠ channel → p.channels.lookup (h a).fd = some a →
      p.Slot h a pfd → p'.Slot (setIndex h b i) a pfd := by
  subst hp'
  have hlookup := Poller.lookup_erase_eq p.channels (h channel).fd
  have hbself : setIndex h b i b = { h b with index := i } := Poller.setIndex_self ..
  have hbother : ∀ a, a ≠ b → setIndex h b i a = h a := fun a ha => Poller.setIndex_of_ne _ ha
  have hget : ∀ j : Nat, j < p.pollfds.length - 1 →
      ((p.pollfds.set i last).dropLast)[j]? = if j = i then some last else p.pollfds[j]? := by
    intro j hj
    rw [List.getElem?_dropLast, List.length_set, if_pos hj]
    by_cases hji : j = i
    · rw [if_pos hji, hji]
      exact List.getElem?_set_self hlen
    · rw [if_neg hji]
      exact List.getElem?_set_ne (Ne.symm hji)
  -- a slot of the old vector is found again, the last one in the place of the free one
  have hfind : ∀ fd a, p.channels.lookup fd = some a → a ≠ channel →
      ∀ (j : Nat) (x : PollFd), (h a).index = j → p.pollfds[j]? = some x →
      ∃ k : Nat, (setIndex h b i a).index = k ∧
        ((p.pollfds.set i last).dropLast)[k]? = some x := by
    intro fd a ha hne j x hj hx
    by_cases hab : a = b
    · subst hab
      have hjlast : j = p.pollfds.length - 1 := by
        rw [hbi] at hj
        exact_mod_cast hj.symm
      refine ⟨i, by rw [hbself], ?_⟩
      rw [hget i (by omega), if_pos rfl, ← hx, hjlast, hlast]
    · have hjlen := (List.getElem?_eq_some_iff.mp hx).1
      have hjlast := hwf.slot_ne ha hb hab hj hbi
      refine ⟨j, by rw [hbother a hab, hj], ?_⟩
      rw [hget j (by omega), if_neg (hwf.slot_ne ha hreg hne hj hi)]
      exact hx
  have hholds : ∀ a x, Holds x (h a) → Holds x (setIndex h b i a) := by
    intro a x hx
    obtain ⟨k, hk⟩ := Poller.setIndex_eq h b a i
    rw [hk]
    exact ⟨hx.fd, hx.events⟩
  constructor
  · refine { fd := ?_, slot := ?_, owner := ?_, size := ?_ }
    · intro fd a ha
      obtain ⟨k, hk⟩ := Poller.setIndex_eq h b a i
      rw [hk]
      exact hwf.fd fd a (hwf.stays ha).1
    · intro fd a ha
      obtain ⟨ha', hne⟩ := hwf.stays ha
      obtain ⟨j, x, hj, hx, hhold⟩ := hwf.slot fd a ha'
      obtain ⟨k, hk, hkx⟩ := hfind fd a ha' hne j x hj hx
      exact ⟨k, x, hk, hkx, hholds a x hhold⟩
    · intro j x hx
      have hj : j < p.pollfds.length - 1 := by
        have hjlen := (List.getElem?_eq_some_iff.mp hx).1
        rw [List.length_dropLast, List.length_set] at hjlen
        exact hjlen
      have hx' := hget j hj
      rw [hx] at hx'
      by_cases hji : j = i
      · rw [if_pos hji, Option.some.injEq] at hx'
        rw [hx', hji]
        refine ⟨b, ?_, by rw [hbself]⟩
        rw [hlookup, if_neg hbne]
        exact hb
      · rw [if_neg hji] at hx'
        obtain ⟨a, ha, hai, hfd⟩ := hwf.owner_ne hreg hi hx'.symm hji
        have hab : a ≠ b := by
          rintro rfl
          rw [hbi] at hai
          omega
        refine ⟨a, ?_, by rw [hbother a hab]; exact hai⟩
        rw [hlookup, if_neg hfd]
        exact ha
    · show (p.channels.erase (h channel).fd).keys.length = _
      rw [List.length_dropLast, List.length_set]
      exact hwf.size_erase hreg
  · rintro a x hne hrega ⟨j, hj, hx⟩
    exact hfind _ a hrega hne j x hj hx

/-- `removeChannel` succeeds for a channel that may be removed, keeps `WF`, takes this channel out
of the map and no other one, and leaves every other slot with its content to its channel. -/
theorem removeChannel_spec (hwf : p.WF h) (hcan : p.CanRemove h channel) :
    ∃ p' h', p.removeChannel channel h = .ok (p', h') ∧ p'.WF h' ∧
      Poller.Removes p.channels p'.channels h h' channel ∧
      ∀ b pfd, b ≠ channel → p.channels.lookup (h b).fd = some b → p.Slot h b pfd →
        p'.Slot h' b pfd := by
  obtain ⟨i, last, hi, hlen, hlast, heq⟩ := removeChannel_eq hwf hcan
  have hreg := hcan.1
  have hlookup := Poller.lookup_erase_eq p.channels (h channel).fd
  rw [heq]
  by_cases hend : i = p.pollfds.length - 1
  · obtain ⟨hwf', hslot⟩ := hwf.removeLast hreg hi hend rfl
    rw [if_pos hend]
    exact ⟨_, _, rfl, hwf', ⟨hlookup, fun b => ⟨(h b).index, rfl⟩⟩, hslot⟩
  · obtain ⟨b, hb, hbi, hbne⟩ := hwf.owner_ne hreg hi hlast (Ne.symm hend)
    obtain ⟨hwf', hslot⟩ := hwf.removeSwap hreg hi hlen hend hlast hb hbi hbne rfl
    have hberase : (p.channels.erase (h channel).fd).lookup (fdOf last.fd) = some b := by
      rw [hlookup, if_neg hbne]
      exact hb
    rw [if_neg hend]
    simp only [hberase]
    exact ⟨_, _, rfl, hwf', ⟨hlookup, fun a => Poller.setIndex_eq h b a i⟩, hslot⟩

/-- Only the owner of the last slot has a new position, and it is a registered channel other
than the one that is removed. -/
theorem removeChannel_others (hwf : p.WF h) {r : PollPoller × Channels}
    (hr : p.removeChannel channel h = .ok r) {b : ChannelPtr}
    (hb : b = channel ∨ p.channels.lookup (h b).fd ≠ some b) : r.2 b = h b := by
  have hcan := canRemove_of_ok hr
  obtain ⟨i, last, hi, hlen, hlast, heq⟩ := removeChannel_eq hwf hcan
  rw [heq] at hr
  by_cases hend : i = p.pollfds.length - 1
  · rw [if_pos hend] at hr
    cases hr
    rfl
  · obtain ⟨c, hc, -, hcne⟩ := hwf.owner_ne hcan.1 hi hlast (Ne.symm hend)
    have hcerase : (p.channels.erase (h channel).fd).lookup (fdOf last.fd) = some c := by
      rw [Poller.lookup_erase_eq, if_neg hcne]
      exact hc
    rw [if_neg hend] at hr
    simp only [hcerase] at hr
    cases hr
    apply Poller.setIndex_of_ne
    have hcfd := hwf.fd _ c hc
    rintro rfl
    rcases hb with rfl | hb
    · exact hcne hcfd.symm
    · rw [hcfd] at hb
      exact hb hc

end PollPoller

end Zing.Net
