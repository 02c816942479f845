import Zing.Net.Poller

set_option autoImplicit false

/-! # `EPollPoller`

The poller over `epoll`, with the interest list that the kernel keeps for it. The invariant
`WF` relates three records of the same thing: the map `channels_`, the index of each channel,
and the interest list.
-/

namespace Zing.Net

open Zing.Lib
open Poller (Assertion setIndex checkRegistered)

/-- An `EPollPoller`, and the kernel's interest list: for each descriptor in it the event mask
and the `data.ptr`. `logged` counts the failures of `epoll_ctl` that are only logged. -/
structure EPollPoller where
  channels : ChannelMap
  interest : Nat → Option (Events × ChannelPtr)
  logged : Nat

namespace EPollPoller

/-- The values of `index` in `EPollPoller.cpp`. -/
def kNew : Int := -1
def kAdded : Int := 1
def kDeleted : Int := 2

def new : EPollPoller where
  channels := ∅
  interest := fun _ => none
  logged := 0

/-- `EPOLL_CTL_ADD`, `EPOLL_CTL_DEL` and `EPOLL_CTL_MOD`. -/
inductive Operation
  | add
  | del
  | mod
  deriving DecidableEq, Repr

/-- The call of `epoll_ctl`. It fails on a descriptor that is in the interest list already, or
is not there; of these failures only that of `EPOLL_CTL_DEL` is not fatal. -/
def update (p : EPollPoller) (operation : Operation) (channel : ChannelPtr) (c : Channel) :
    Except Assertion EPollPoller :=
  match operation with
  | .add => do
      check (p.interest c.fd = none) .epollCtl
      .ok { p with interest := Function.update p.interest c.fd (some (c.events, channel)) }
  | .mod => do
      check (p.interest c.fd ≠ none) .epollCtl
      .ok { p with interest := Function.update p.interest c.fd (some (c.events, channel)) }
  | .del =>
      .ok { p with
        interest := Function.update p.interest c.fd none
        logged := if p.interest c.fd = none then p.logged + 1 else p.logged }

/-- `updateChannel` adds a channel that is new or was deleted, deletes one that has no events
left, and modifies any other. -/
def updateChannel (p : EPollPoller) (channel : ChannelPtr) (h : Channels) :
    Except Assertion (EPollPoller × Channels) :=
  let c := h channel
  if c.index = kNew ∨ c.index = kDeleted then do
    let p ←
      if c.index = kNew then do
        check (p.channels.lookup c.fd = none) .unregistered
        .ok { p with channels := p.channels.insert c.fd channel }
      else do
        checkRegistered p.channels channel c.fd
        .ok p
    let p ← p.update .add channel c
    .ok (p, setIndex h channel kAdded)
  else do
    checkRegistered p.channels channel c.fd
    check (c.index = kAdded) .index
    if c.isNoneEvent = true then do
      let p ← p.update .del channel c
      .ok (p, setIndex h channel kDeleted)
    else do
      let p ← p.update .mod channel c
      .ok (p, h)

/-- `removeChannel` takes the channel out of the map, and out of the interest list if it is there.
-/
def removeChannel (p : EPollPoller) (channel : ChannelPtr) (h : Channels) :
    Except Assertion (EPollPoller × Channels) := do
  let c := h channel
  checkRegistered p.channels channel c.fd
  check (c.isNoneEvent = true) .noneEvent
  check (c.index = kAdded ∨ c.index = kDeleted) .index
  let p := { p with channels := p.channels.erase c.fd }
  let p ← if c.index = kAdded then p.update .del channel c else .ok p
  .ok (p, setIndex h channel kNew)

/-- The descriptors that `epoll_wait` may report. -/
def watches (p : EPollPoller) (fd : Nat) : Bool := (p.interest fd).isSome

/-! ## The invariant -/

/-- A channel is registered under its own descriptor. If its index is `kAdded`, the kernel has its
events and its address; if it is `kDeleted`, or the descriptor is not in the map, the kernel has
nothing. -/
structure WF (p : EPollPoller) (h : Channels) : Prop where
  fd : ∀ fd a, p.channels.lookup fd = some a → (h a).fd = fd
  index : ∀ fd a, p.channels.lookup fd = some a → (h a).index = kAdded ∨ (h a).index = kDeleted
  added : ∀ fd a, p.channels.lookup fd = some a → (h a).index = kAdded →
    p.interest fd = some ((h a).events, a)
  deleted : ∀ fd a, p.channels.lookup fd = some a → (h a).index = kDeleted →
    p.interest fd = none
  unregistered : ∀ fd, p.channels.lookup fd = none → p.interest fd = none

/-- Nothing is registered. -/
theorem new_wf (h : Channels) : new.WF h where
  fd := by intro fd a ha; cases ha
  index := by intro fd a ha; cases ha
  added := by intro fd a ha; cases ha
  deleted := by intro fd a ha; cases ha
  unregistered := fun _ _ => rfl

/-- A channel that `updateChannel` may be called for: a new one, or a registered one. -/
def CanUpdate (p : EPollPoller) (h : Channels) (channel : ChannelPtr) : Prop :=
  (p.channels.lookup (h channel).fd = none ∧ (h channel).index = kNew) ∨
    p.channels.lookup (h channel).fd = some channel

/-- A channel that `removeChannel` may be called for. -/
def CanRemove (p : EPollPoller) (h : Channels) (channel : ChannelPtr) : Prop :=
  p.channels.lookup (h channel).fd = some channel ∧ (h channel).isNoneEvent = true

variable {p : EPollPoller} {h : Channels} {channel : ChannelPtr}

/-- `WF` reads the descriptor, the index and the events of a channel only. -/
theorem WF.agrees {h' : Channels} (hwf : p.WF h) (ha : Poller.Agrees h h') : p.WF h' where
  fd := by
    intro fd a hl
    rw [(ha a).1]
    exact hwf.fd fd a hl
  index := by
    intro fd a hl
    rw [(ha a).2.1]
    exact hwf.index fd a hl
  added := by
    intro fd a hl hi
    rw [(ha a).2.1] at hi
    rw [(ha a).2.2]
    exact hwf.added fd a hl hi
  deleted := by
    intro fd a hl hi
    rw [(ha a).2.1] at hi
    exact hwf.deleted fd a hl hi
  unregistered := hwf.unregistered

/-- Two descriptors have two channels. -/
theorem WF.ptr_ne (hwf : p.WF h) {fd : Nat} {a : ChannelPtr}
    (ha : p.channels.lookup fd = some a) (hfd : fd ≠ (h channel).fd) : a ≠ channel := by
  rintro rfl
  exact hfd (hwf.fd fd a ha).symm

/-- An update of the objects and of the interest list at one descriptor keeps the invariant,
if it is right there. -/
theorem WF.change (hwf : p.WF h) (channel : ChannelPtr) {p' : EPollPoller} {h' : Channels}
    (hlookup : ∀ fd, p'.channels.lookup fd =
      if fd = (h channel).fd then some channel else p.channels.lookup fd)
    (hinterest : ∀ fd, fd ≠ (h channel).fd → p'.interest fd = p.interest fd)
    (hothers : ∀ b, b ≠ channel → h' b = h b) (hfd : (h' channel).fd = (h channel).fd)
    (hself : (h' channel).index = kAdded ∧
        p'.interest (h channel).fd = some ((h' channel).events, channel) ∨
      (h' channel).index = kDeleted ∧ p'.interest (h channel).fd = none) : p'.WF h' := by
  -- a registered channel is `channel`, or it is as it was
  have hcases : ∀ fd a, p'.channels.lookup fd = some a →
      (fd = (h channel).fd ∧ a = channel) ∨
        (fd ≠ (h channel).fd ∧ p.channels.lookup fd = some a ∧ h' a = h a) := by
    intro fd a ha
    rw [hlookup] at ha
    by_cases hc : fd = (h channel).fd
    · rw [if_pos hc, Option.some.injEq] at ha
      exact Or.inl ⟨hc, ha.symm⟩
    · rw [if_neg hc] at ha
      exact Or.inr ⟨hc, ha, hothers a (hwf.ptr_ne ha hc)⟩
  refine { fd := ?_, index := ?_, added := ?_, deleted := ?_, unregistered := ?_ }
  · intro fd a ha
    rcases hcases fd a ha with ⟨rfl, rfl⟩ | ⟨-, ha, heq⟩
    · exact hfd
    · rw [heq]
      exact hwf.fd fd a ha
  · intro fd a ha
    rcases hcases fd a ha with ⟨rfl, rfl⟩ | ⟨-, ha, heq⟩
    · exact hself.imp And.left And.left
    · rw [heq]
      exact hwf.index fd a ha
  · intro fd a ha hidx
    rcases hcases fd a ha with ⟨rfl, rfl⟩ | ⟨hne, ha, heq⟩
    · rcases hself with ⟨-, hint⟩ | ⟨hdel, -⟩
      · exact hint
      · rw [hidx] at hdel
        cases hdel
    · rw [hinterest fd hne, heq]
      rw [heq] at hidx
      exact hwf.added fd a ha hidx
  · intro fd a ha hidx
    rcases hcases fd a ha with ⟨rfl, rfl⟩ | ⟨hne, ha, heq⟩
    · rcases hself with ⟨hadd, -⟩ | ⟨-, hint⟩
      · rw [hidx] at hadd
        cases hadd
      · exact hint
    · rw [hinterest fd hne]
      rw [heq] at hidx
      exact hwf.deleted fd a ha hidx
  · intro fd hnone
    rw [hlookup] at hnone
    by_cases hc : fd = (h channel).fd
    · rw [if_pos hc] at hnone
      cases hnone
    · rw [if_neg hc] at hnone
      rw [hinterest fd hc]
      exact hwf.unregistered fd hnone

/-! ## The operations -/

/-- Where an update leaves the channel: out of the interest list, if it was in it and watches
nothing any more, and in it otherwise. -/
def indexAfter (c : Channel) : Int :=
  if c.index = kAdded ∧ c.isNoneEvent = true then kDeleted else kAdded

/-- The entry of the interest list that goes with this index. -/
def entryAfter (c : Channel) (channel : ChannelPtr) : Option (Events × ChannelPtr) :=
  if c.index = kAdded ∧ c.isNoneEvent = true then none else some (c.events, channel)

/-- Behind such an update the kernel has the channel, -/
theorem after_on (channel : ChannelPtr) {c : Channel}
    (hon : ¬ (c.index = kAdded ∧ c.isNoneEvent = true)) :
    indexAfter c = kAdded ∧ entryAfter c channel = some (c.events, channel) :=
  ⟨if_neg hon, if_neg hon⟩

/-- and behind any other one it does not. -/
theorem after_off (channel : ChannelPtr) {c : Channel}
    (hoff : c.index = kAdded ∧ c.isNoneEvent = true) :
    indexAfter c = kDeleted ∧ entryAfter c channel = none :=
  ⟨if_pos hoff, if_pos hoff⟩

/-- What `updateChannel` does, called after the object of the channel has become `c`: the
channel is registered, and its index and its entry are set. -/
theorem updateChannel_eq (hwf : p.WF h) (hcan : p.CanUpdate h channel) {c : Channel}
    (hfd : c.fd = (h channel).fd) (hidx : c.index = (h channel).index) :
    ∃ p', p.updateChannel channel (Function.update h channel c) =
        .ok (p', Function.update h channel { c with index := indexAfter c }) ∧
      (∀ fd, p'.channels.lookup fd = if fd = c.fd then some channel else p.channels.lookup fd) ∧
      p'.interest = Function.update p.interest c.fd (entryAfter c channel) ∧
      p'.logged = p.logged := by
  have hc : Function.update h channel c channel = c := Function.update_self ..
  have hset : ∀ k, setIndex (Function.update h channel c) channel k =
      Function.update h channel { c with index := k } := by
    intro k
    rw [setIndex, hc]
    exact Function.update_idem ..
  unfold updateChannel
  simp only [hc, hset]
  rcases hcan with ⟨hnone, hnew⟩ | hreg
  · -- a new channel
    have hnew' : c.index = kNew := hidx.trans hnew
    have hint : p.interest c.fd = none := by
      rw [hfd]
      exact hwf.unregistered _ hnone
    obtain ⟨hindex, hentry⟩ : indexAfter c = kAdded ∧ entryAfter c channel = _ := by
      apply after_on
      rw [hnew']
      rintro ⟨hadd, -⟩
      cases hadd
    have hnone' : p.channels.lookup (Function.update h channel c channel).fd = none := by
      rw [hc, hfd]
      exact hnone
    rw [if_pos (Or.inl hnew'), if_pos hnew', check_bind hnone', hindex, hentry]
    simp only [ok_bind, update]
    rw [check_bind hint]
    exact ⟨_, rfl, Poller.lookup_insert_eq _ _ _, rfl, rfl⟩
  · have hregc : p.channels.lookup c.fd = some channel := hfd ▸ hreg
    have hlookup := Poller.lookup_registered hregc
    rcases hwf.index _ _ hreg with hadd | hdel
    · -- in the interest list
      have hadd' : c.index = kAdded := hidx.trans hadd
      have hnotNew : ¬ (c.index = kNew ∨ c.index = kDeleted) := by
        rw [hadd']
        decide
      have hint : p.interest c.fd ≠ none := by
        rw [hfd, hwf.added _ _ hreg hadd]
        exact Option.some_ne_none _
      rw [if_neg hnotNew, Poller.checkRegistered_ok hregc, ok_bind, check_bind hadd']
      by_cases hnone : c.isNoneEvent = true
      · obtain ⟨hindex, hentry⟩ := after_off channel ⟨hadd', hnone⟩
        rw [if_pos hnone, hindex, hentry]
        exact ⟨_, rfl, hlookup, rfl, if_neg hint⟩
      · obtain ⟨hindex, hentry⟩ := after_on channel fun hoff => hnone hoff.2
        have hsame : Function.update h channel { c with index := kAdded } =
            Function.update h channel c := by
          rw [← hadd']
        rw [if_neg hnone, hindex, hentry, hsame]
        simp only [update]
        rw [check_bind hint]
        exact ⟨_, rfl, hlookup, rfl, rfl⟩
    · -- registered, but not in the interest list
      have hdel' : c.index = kDeleted := hidx.trans hdel
      have hnotNew : c.index ≠ kNew := by
        rw [hdel']
        decide
      have hint : p.interest c.fd = none := by
        rw [hfd]
        exact hwf.deleted _ _ hreg hdel
      obtain ⟨hindex, hentry⟩ : indexAfter c = kAdded ∧ entryAfter c channel = _ := by
        apply after_on
        rw [hdel']
        rintro ⟨hadd, -⟩
        cases hadd
      rw [if_pos (Or.inr hdel'), if_neg hnotNew, Poller.checkRegistered_ok hregc, hindex, hentry]
      simp only [ok_bind, update]
      rw [check_bind hint]
      exact ⟨_, rfl, hlookup, rfl, rfl⟩

/-- An update keeps the invariant. -/
theorem WF.updated (hwf : p.WF h) {c : Channel} (hfd : c.fd = (h channel).fd)
    {p' : EPollPoller} (hlookup : ∀ fd, p'.channels.lookup fd =
      if fd = c.fd then some channel else p.channels.lookup fd)
    (hinterest : p'.interest = Function.update p.interest c.fd (entryAfter c channel)) :
    p'.WF (Function.update h channel { c with index := indexAfter c }) := by
  have hself : Function.update h channel { c with index := indexAfter c } channel =
      { c with index := indexAfter c } := Function.update_self ..
  have hentry : p'.interest (h channel).fd = entryAfter c channel := by
    rw [hinterest, ← hfd]
    exact Function.update_self ..
  refine hwf.change channel (hfd ▸ hlookup) ?_ (fun b hb => Function.update_of_ne hb ..) ?_ ?_
  · intro fd hne
    rw [hinterest]
    exact Function.update_of_ne (hfd ▸ hne) ..
  · rw [hself]
    exact hfd
  · rw [hself, hentry]
    by_cases hoff : c.index = kAdded ∧ c.isNoneEvent = true
    · exact Or.inr (after_off channel hoff)
    · exact Or.inl (after_on channel hoff)

/-- `updateChannel`, called after the object of the channel has become `c`. -/
theorem updateChannel_spec (hwf : p.WF h) (hcan : p.CanUpdate h channel) {c : Channel}
    (hfd : c.fd = (h channel).fd) (hidx : c.index = (h channel).index) :
    ∃ p' h', p.updateChannel channel (Function.update h channel c) = .ok (p', h') ∧ p'.WF h' ∧
      Poller.Updates p.channels p'.channels h h' channel c := by
  obtain ⟨p', hok, hlookup, hinterest, -⟩ := updateChannel_eq hwf hcan hfd hidx
  refine ⟨p', _, hok, hwf.updated hfd hlookup hinterest, hlookup, ⟨indexAfter c, ?_⟩, ?_⟩
  · exact Function.update_self ..
  · intro b hb
    exact Function.update_of_ne hb ..

/-- The assertions of `removeChannel` hold of such channels only. -/
theorem canRemove_of_ok {r : EPollPoller × Channels} (hr : p.removeChannel channel h = .ok r) :
    p.CanRemove h channel := by
  obtain ⟨_, hreg, hr⟩ := bind_eq_ok.mp hr
  obtain ⟨_, hnone, -⟩ := bind_eq_ok.mp hr
  exact ⟨Poller.checkRegistered_eq_ok hreg, check_eq_ok.mp hnone⟩

/-- What `removeChannel` does. -/
theorem removeChannel_eq (hwf : p.WF h) (hcan : p.CanRemove h channel) :
    ∃ p', p.removeChannel channel h = .ok (p', setIndex h channel kNew) ∧
      (∀ fd, p'.channels.lookup fd =
        if fd = (h channel).fd then none else p.channels.lookup fd) ∧
      (∀ fd, p'.interest fd = if fd = (h channel).fd then none else p.interest fd) ∧
      p'.logged = p.logged := by
  obtain ⟨hreg, hnone⟩ := hcan
  have hindex := hwf.index _ _ hreg
  unfold removeChannel
  simp only
  rw [Poller.checkRegistered_ok hreg, ok_bind, check_bind hnone, check_bind hindex]
  by_cases hadd : (h channel).index = kAdded
  · have hint : p.interest (h channel).fd ≠ none := by
      rw [hwf.added _ _ hreg hadd]
      exact Option.some_ne_none _
    rw [if_pos hadd]
    refine ⟨_, rfl, Poller.lookup_erase_eq _ _, ?_, if_neg hint⟩
    intro fd
    by_cases hfd : fd = (h channel).fd
    · rw [if_pos hfd, hfd]
      exact Function.update_self ..
    · rw [if_neg hfd]
      exact Function.update_of_ne hfd ..
  · rw [if_neg hadd]
    refine ⟨_, rfl, Poller.lookup_erase_eq _ _, ?_, rfl⟩
    intro fd
    by_cases hfd : fd = (h channel).fd
    · rw [if_pos hfd, hfd]
      exact hwf.deleted _ _ hreg (hindex.resolve_left hadd)
    · rw [if_neg hfd]

/-- Without the channel, its descriptor and its entry, the invariant holds again. -/
theorem WF.removed (hwf : p.WF h) {p' : EPollPoller}
    (hlookup : ∀ fd, p'.channels.lookup fd =
      if fd = (h channel).fd then none else p.channels.lookup fd)
    (hinterest : ∀ fd, p'.interest fd =
      if fd = (h channel).fd then none else p.interest fd) : p'.WF (setIndex h channel kNew) := by
  -- the other channels are as they were
  have hcases : ∀ fd a, p'.channels.lookup fd = some a → fd ≠ (h channel).fd ∧
      p.channels.lookup fd = some a ∧ setIndex h channel kNew a = h a := by
    intro fd a ha
    rw [hlookup] at ha
    by_cases hfd : fd = (h channel).fd
    · rw [if_pos hfd] at ha
      cases ha
    · rw [if_neg hfd] at ha
      exact ⟨hfd, ha, Poller.setIndex_of_ne _ (hwf.ptr_ne ha hfd)⟩
  refine { fd := ?_, index := ?_, added := ?_, deleted := ?_, unregistered := ?_ }
  · intro fd a ha
    obtain ⟨-, ha, heq⟩ := hcases fd a ha
    rw [heq]
    exact hwf.fd fd a ha
  · intro fd a ha
    obtain ⟨-, ha, heq⟩ := hcases fd a ha
    rw [heq]
    exact hwf.index fd a ha
  · intro fd a ha
    obtain ⟨hne, ha, heq⟩ := hcases fd a ha
    rw [heq, hinterest, if_neg hne]
    exact hwf.added fd a ha
  · intro fd a ha
    obtain ⟨hne, ha, heq⟩ := hcases fd a ha
    rw [heq, hinterest, if_neg hne]
    exact hwf.deleted fd a ha
  · intro fd hn
    rw [hlookup] at hn
    rw [hinterest]
    by_cases hfd : fd = (h channel).fd
    · rw [if_pos hfd]
    · rw [if_neg hfd] at hn ⊢
      exact hwf.unregistered fd hn

theorem removeChannel_spec (hwf : p.WF h) (hcan : p.CanRemove h channel) :
    ∃ p' h', p.removeChannel channel h = .ok (p', h') ∧ p'.WF h' ∧
      Poller.Removes p.channels p'.channels h h' channel := by
  obtain ⟨p', hok, hlookup, hinterest, -⟩ := removeChannel_eq hwf hcan
  exact ⟨p', _, hok, hwf.removed hlookup hinterest, hlookup,
    fun b => Poller.setIndex_eq h channel b kNew⟩

end EPollPoller

end Zing.Net
