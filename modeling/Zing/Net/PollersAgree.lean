import Zing.Net.EPollRuns
import Zing.Net.PollPoller

set_option autoImplicit false

/-! # The two pollers side by side

`EPollPoller` and `PollPoller` go through the same operations of the same channels.
`interchangeable_iff` says exactly for which sequences of operations `PollPoller` follows
`EPollPoller` and asks the kernel for the same: `Agrees` is the relation between their states
that such operations preserve.
-/

namespace Zing.Net

open Zing.Lib
open ChannelOps (Op Update Loop Constructed Legal)

/-- What the kernel is asked to watch: the interest list. -/
def EPollPoller.watched (p : EPollPoller) : Set (Nat × Events) :=
  { x | ∃ a, p.interest x.1 = some (x.2, a) }

/-- What the kernel is asked to watch: the slots whose descriptor is not negative. -/
def PollPoller.watched (p : PollPoller) : Set (Nat × Events) :=
  { x | ∃ pfd ∈ p.pollfds, pfd.fd = x.1 ∧ pfd.events = x.2 }

namespace PollersAgree

open EPollPoller (Known kNew kAdded kDeleted indexAfter entryAfter)
open PollPoller (Slot)

/-- The functions of `PollPoller` that channels use. -/
def pollCalls : ChannelOps.Calls PollPoller where
  channels := PollPoller.channels
  updateChannel := PollPoller.updateChannel
  removeChannel := PollPoller.removeChannel

/-- The runs of the operations on new channels, with a `PollPoller`. -/
def pollRuns (h : Channels) : System (Loop PollPoller) Op Poller.Assertion :=
  ChannelOps.runs pollCalls PollPoller.new h

/-- `PollPoller` follows the operations wherever `EPollPoller` executes them, and the kernel is
asked to watch the same. -/
def Interchangeable (S : Set ChannelPtr) (h : Channels) (ops : List Op) : Prop :=
  System.Follows (EPollPoller.runs h) (pollRuns h) (fun _ op => op.channel ∈ S)
    (fun e p => e.poller.watched = p.poller.watched) ⟨EPollPoller.new, h⟩ ⟨PollPoller.new, h⟩ ops

/-- The operation `op` behind `pre`, with `EPollPoller` in the state `e`: no removed channel
comes back, a channel that is out of the interest list is not updated without events, and a
channel is out of the interest list before it is removed. -/
structure Keeps (pre : List Op) (e : Loop EPollPoller) (op : Op) : Prop where
  again : ∀ u a, op = .update u a → .remove a ∉ pre
  update : ∀ u a, op = .update u a → (u.apply (e.channels a)).isNoneEvent = true →
    (e.channels a).index ≠ kDeleted
  remove : ∀ a, op = .remove a → (e.channels a).index = kDeleted

/-- The descriptor in the slot of the channel `c`. -/
def slotFd (c : Channel) : Int := if c.index = kDeleted then -c.fd - 1 else c.fd

/-- The two pollers behind the operations `pre`. They have the same channels, and the same object
for each apart from its index. The slot of a channel is negative where the channel is out of the
interest list. A channel that was removed has its index, and so its slot, still: `stale` is why it
cannot come back. -/
structure Agrees (S : Set ChannelPtr) (pre : List Op) (e : Loop EPollPoller)
    (p : Loop PollPoller) : Prop where
  known : Known S e
  wf : p.poller.WF p.channels
  lookup : ∀ fd, p.poller.channels.lookup fd = e.poller.channels.lookup fd
  object : ∀ a, ∃ k, p.channels a = { e.channels a with index := k }
  fresh : ∀ a ∈ S, .remove a ∉ pre → e.poller.channels.lookup (e.channels a).fd = none →
    (p.channels a).index < 0
  stale : ∀ a ∈ S, .remove a ∈ pre →
    e.poller.channels.lookup (e.channels a).fd = none ∧ 0 ≤ (p.channels a).index
  slot : ∀ fd a, e.poller.channels.lookup fd = some a →
    ∃ pfd, p.poller.Slot p.channels a pfd ∧ pfd.fd = slotFd (e.channels a)
  deleted : ∀ fd a, e.poller.channels.lookup fd = some a →
    (e.channels a).index = kDeleted → (e.channels a).isNoneEvent = true

variable {S : Set ChannelPtr} {pre : List Op} {e e' : Loop EPollPoller} {p p' : Loop PollPoller}
  {channel : ChannelPtr}

/-- Two new pollers agree on new channels. -/
theorem agrees_start {h : Channels} (hc : Constructed S h) :
    Agrees S [] { poller := EPollPoller.new, channels := h }
      { poller := PollPoller.new, channels := h } where
  known := EPollPoller.known_start hc
  wf := PollPoller.new_wf h
  lookup := fun _ => rfl
  object := fun a => ⟨(h a).index, rfl⟩
  fresh := by
    intro a ha _ _
    show (h a).index < 0
    rw [hc.new a ha]
    exact Int.negSucc_lt_zero 0
  stale := fun _ _ hmem => absurd hmem (List.not_mem_nil)
  slot := fun _ _ ha => nomatch ha
  deleted := fun _ _ ha => nomatch ha

/-- A channel has one descriptor in both runs, -/
theorem Agrees.fd (h : Agrees S pre e p) (a : ChannelPtr) :
    (p.channels a).fd = (e.channels a).fd := by
  obtain ⟨k, hk⟩ := h.object a
  rw [hk]

/-- and one set of events. -/
theorem Agrees.events (h : Agrees S pre e p) (a : ChannelPtr) :
    (p.channels a).events = (e.channels a).events := by
  obtain ⟨k, hk⟩ := h.object a
  rw [hk]

/-- Two channels of the run never share a descriptor. -/
theorem Agrees.fd_ne (h : Agrees S pre e p) {a b : ChannelPtr} (ha : a ∈ S) (hb : b ∈ S)
    (hne : a ≠ b) : (e.channels a).fd ≠ (e.channels b).fd :=
  fun heq => hne (h.known.distinct ha hb heq)

/-- The two pollers have the same channels registered. -/
theorem Agrees.registered_iff (h : Agrees S pre e p) (a : ChannelPtr) :
    p.poller.channels.lookup (p.channels a).fd = some a ↔
      e.poller.channels.lookup (e.channels a).fd = some a := by
  rw [h.fd, h.lookup]

/-- What `EPollPoller` does not have, `PollPoller` does not have either. -/
theorem Agrees.unregistered (h : Agrees S pre e p) {a : ChannelPtr}
    (hnone : e.poller.channels.lookup (e.channels a).fd = none) :
    p.poller.channels.lookup (p.channels a).fd ≠ some a := by
  rw [h.fd, h.lookup, hnone]
  exact nofun

/-- A registered channel has its slot, with its events. -/
theorem Agrees.slot_of_registered (h : Agrees S pre e p) {fd : Nat} {a : ChannelPtr}
    (ha : e.poller.channels.lookup fd = some a) :
    ∃ pfd, p.poller.Slot p.channels a pfd ∧ pfd.fd = slotFd (e.channels a) ∧
      pfd.events = (e.channels a).events := by
  obtain ⟨pfd, hslot, hfd⟩ := h.slot fd a ha
  obtain ⟨x, hx, hholds⟩ := h.wf.registered_slot ((h.lookup fd).trans ha)
  rw [hx.unique hslot] at hholds
  exact ⟨pfd, hslot, hfd, hholds.events.trans (h.events a)⟩

/-- The relation makes the two sets equal. -/
theorem Agrees.watched (h : Agrees S pre e p) : e.poller.watched = p.poller.watched := by
  have hwf := h.known.wf
  ext ⟨fd, events⟩
  constructor
  · rintro ⟨a, ha⟩
    have ha : e.poller.interest fd = some (events, a) := ha
    have hreg : e.poller.channels.lookup fd ≠ none := by
      intro hnone
      rw [hwf.unregistered fd hnone] at ha
      cases ha
    obtain ⟨b, hb⟩ := Option.ne_none_iff_exists'.mp hreg
    rcases hwf.index fd b hb with hadd | hdel
    · rw [hwf.added fd b hb hadd, Option.some.injEq, Prod.mk.injEq] at ha
      obtain ⟨pfd, ⟨i, -, hi⟩, hfd, hevents⟩ := h.slot_of_registered hb
      refine ⟨pfd, List.mem_iff_getElem?.mpr ⟨i, hi⟩, ?_, hevents.trans ha.1⟩
      rw [hfd, slotFd, if_neg (by rw [hadd]; decide), hwf.fd fd b hb]
    · rw [hwf.deleted fd b hb hdel] at ha
      cases ha
  · rintro ⟨pfd, hmem, hfd, hevents⟩
    have hfd : pfd.fd = fd := hfd
    obtain ⟨i, hi⟩ := List.mem_iff_getElem?.mp hmem
    obtain ⟨a, ha, hai⟩ := h.wf.owner i pfd hi
    have hfdOf : PollPoller.fdOf pfd.fd = fd := by
      rw [PollPoller.fdOf, if_neg (by omega)]
      omega
    rw [hfdOf, h.lookup] at ha
    obtain ⟨x, hx, hxfd, hxevents⟩ := h.slot_of_registered ha
    rw [hx.unique ⟨i, hai, hi⟩] at hxfd hxevents
    refine ⟨a, ?_⟩
    show e.poller.interest fd = some (events, a)
    rcases hwf.index fd a ha with hadd | hdel
    · rw [hwf.added fd a ha hadd, ← hxevents, hevents]
    · -- the slot of such a channel is negative
      rw [slotFd, if_pos hdel] at hxfd
      omega

/-! ## Updating -/

/-- No operation of a channel reads or writes its index. -/
theorem apply_setIndex (u : Update) (c : Channel) (k : Int) :
    u.apply { c with index := k } = { u.apply c with index := k } := by
  cases u <;> rfl

/-- What `EPollPoller` does in an update that it executes. -/
theorem Agrees.update_next (h : Agrees S pre e p) (hS : channel ∈ S) {u : Update}
    (hn : e.update EPollPoller.calls u channel = .ok e') :
    Known S e' ∧
      e'.channels = Function.update e.channels channel
        { u.apply (e.channels channel) with
          index := indexAfter (u.apply (e.channels channel)) } ∧
      ∀ fd, e'.poller.channels.lookup fd =
        if fd = (e.channels channel).fd then some channel
        else e.poller.channels.lookup fd := by
  obtain ⟨t, ht, hknown⟩ := h.known.update hS u
  obtain ⟨q, hq, hlookup, -⟩ := h.known.update_eq hS u
  rw [hn, Except.ok.injEq] at ht hq
  subst ht
  refine ⟨hknown, ?_, ?_⟩
  · rw [hq]
  · rw [hq]
    exact hlookup

/-- The slot of a channel behind an update of it. -/
def slotAfter (e : Loop EPollPoller) (u : Update) (channel : ChannelPtr) : Int :=
  if e.poller.channels.lookup (e.channels channel).fd ≠ none ∧
      (u.apply (e.channels channel)).isNoneEvent = true then
    -((e.channels channel).fd : Int) - 1
  else (e.channels channel).fd

/-- What `PollPoller` does in an update of a channel that has not been removed. -/
structure Updated (e : Loop EPollPoller) (p p' : Loop PollPoller) (u : Update)
    (channel : ChannelPtr) : Prop where
  wf : p'.poller.WF p'.channels
  lookup : ∀ fd, p'.poller.channels.lookup fd =
    if fd = (e.channels channel).fd then some channel else p.poller.channels.lookup fd
  self : ∃ k, p'.channels channel = { u.apply (e.channels channel) with index := k }
  others : ∀ b, b ≠ channel → p'.channels b = p.channels b
  slots : ∀ b pfd, b ≠ channel → p.poller.channels.lookup (p.channels b).fd = some b →
    p.poller.Slot p.channels b pfd → p'.poller.Slot p'.channels b pfd
  slot : ∃ pfd, p'.poller.Slot p'.channels channel pfd ∧ pfd.fd = slotAfter e u channel

/-- `PollPoller` follows an update of any channel that was never removed. -/
theorem Agrees.update_poll (h : Agrees S pre e p) (hS : channel ∈ S) (u : Update)
    (hnot : .remove channel ∉ pre) :
    ∃ p', p.update pollCalls u channel = .ok p' ∧ Updated e p p' u channel := by
  obtain ⟨k, hk⟩ := h.object channel
  have happly : u.apply (p.channels channel) =
      { u.apply (e.channels channel) with index := k } := by
    rw [hk, apply_setIndex]
  have hfd : (u.apply (p.channels channel)).fd = (p.channels channel).fd := ChannelOps.apply_fd u _
  have hfde : (u.apply (p.channels channel)).fd = (e.channels channel).fd :=
    hfd.trans (h.fd channel)
  have hidx := ChannelOps.apply_index u (p.channels channel)
  by_cases hnone : e.poller.channels.lookup (e.channels channel).fd = none
  · have hneg := h.fresh channel hS hnot hnone
    have hnone' : p.poller.channels.lookup (p.channels channel).fd = none := by
      rw [h.fd, h.lookup]
      exact hnone
    obtain ⟨q, o, hok, hwf, hup, hslots, hslot⟩ :=
      PollPoller.updateChannel_new h.wf hnone' hneg hfd hidx
    obtain ⟨i, hi⟩ := hup.self
    refine ⟨⟨q, o⟩, ?_, hwf, ?_, ⟨i, ?_⟩, hup.others, fun b pfd hb _ => hslots b pfd hb,
      _, hslot, ?_⟩
    · show (p.poller.updateChannel _ _ >>= _) = _
      rw [hok]
      rfl
    · rw [← hfde]
      exact hup.lookup
    · show o channel = _
      rw [hi, happly]
    · rw [slotAfter, if_neg fun hboth => hboth.1 hnone, hfde]
  · have hreg := h.known.registered_self hS hnone
    have hreg' : p.poller.channels.lookup (p.channels channel).fd = some channel := by
      rw [h.fd, h.lookup]
      exact hreg
    obtain ⟨q, o, hok, hwf, hup, hslots, hslot⟩ :=
      PollPoller.updateChannel_registered h.wf hreg' hfd hidx
    obtain ⟨i, hi⟩ := hup.self
    refine ⟨⟨q, o⟩, ?_, hwf, ?_, ⟨i, ?_⟩, hup.others, hslots, _, hslot, ?_⟩
    · show (p.poller.updateChannel _ _ >>= _) = _
      rw [hok]
      rfl
    · rw [← hfde]
      exact hup.lookup
    · show o channel = _
      rw [hi, happly]
    · have hevents : (u.apply (p.channels channel)).isNoneEvent =
          (u.apply (e.channels channel)).isNoneEvent := by
        rw [happly]
        rfl
      rw [slotAfter, hevents, hfde]
      by_cases hn : (u.apply (e.channels channel)).isNoneEvent = true
      · rw [if_pos hn, if_pos ⟨hnone, hn⟩]
      · rw [if_neg hn, if_neg fun hboth => hn hboth.2]

/-- A channel leaves the interest list by an update without events. -/
theorem indexAfter_eq_kDeleted {c : Channel} :
    indexAfter c = kDeleted ↔ c.index = kAdded ∧ c.isNoneEvent = true := by
  rw [indexAfter]
  by_cases hoff : c.index = kAdded ∧ c.isNoneEvent = true
  · rw [if_pos hoff]
    exact ⟨fun _ => hoff, fun _ => rfl⟩
  · rw [if_neg hoff]
    exact ⟨fun heq => absurd heq (by decide), fun hon => absurd hon hoff⟩

/-- `EPollPoller` moves the channel out of the interest list when `PollPoller` negates its
slot, unless the channel was out of it before and has no events. -/
theorem Agrees.slotFd_after (h : Agrees S pre e p) (hS : channel ∈ S) {u : Update}
    (hkeeps : (u.apply (e.channels channel)).isNoneEvent = true →
      (e.channels channel).index ≠ kDeleted) :
    slotFd { u.apply (e.channels channel) with
      index := indexAfter (u.apply (e.channels channel)) } = slotAfter e u channel := by
  have hfd := ChannelOps.apply_fd u (e.channels channel)
  have hidx := ChannelOps.apply_index u (e.channels channel)
  have hiff : indexAfter (u.apply (e.channels channel)) = kDeleted ↔
      e.poller.channels.lookup (e.channels channel).fd ≠ none ∧
        (u.apply (e.channels channel)).isNoneEvent = true := by
    rw [indexAfter_eq_kDeleted, hidx]
    constructor
    · rintro ⟨hadd, hn⟩
      refine ⟨?_, hn⟩
      intro hnone
      rw [h.known.new channel hS hnone] at hadd
      cases hadd
    · rintro ⟨hreg, hn⟩
      refine ⟨?_, hn⟩
      exact (h.known.wf.index _ _ (h.known.registered_self hS hreg)).resolve_right (hkeeps hn)
  rw [slotFd, slotAfter]
  dsimp only
  rw [hfd]
  by_cases hoff : indexAfter (u.apply (e.channels channel)) = kDeleted
  · rw [if_pos hoff, if_pos (hiff.mp hoff)]
  · rw [if_neg hoff, if_neg fun hboth => hoff (hiff.mpr hboth)]

/-- An update removes nothing. -/
theorem mem_append_update {u : Update} {a b : ChannelPtr} :
    Op.remove b ∈ pre ++ [.update u a] ↔ Op.remove b ∈ pre := by
  rw [List.mem_append, List.mem_singleton]
  exact ⟨fun hmem => hmem.resolve_right (by rintro ⟨⟩), Or.inl⟩

/-- The relation behind an update. -/
theorem Agrees.update (h : Agrees S pre e p) (hS : channel ∈ S) {u : Update}
    (hn : e.update EPollPoller.calls u channel = .ok e')
    (hk : Keeps pre e (.update u channel)) :
    ∃ p', p.update pollCalls u channel = .ok p' ∧
      Agrees S (pre ++ [.update u channel]) e' p' := by
  have hnot := hk.again u channel rfl
  obtain ⟨hknown, hobj, hlookup⟩ := h.update_next hS hn
  obtain ⟨p', hok, hup⟩ := h.update_poll hS u hnot
  have hself : e'.channels channel = { u.apply (e.channels channel) with
      index := indexAfter (u.apply (e.channels channel)) } := by
    rw [hobj, Function.update_self]
  have hothers : ∀ b, b ≠ channel → e'.channels b = e.channels b := by
    intro b hb
    rw [hobj, Function.update_of_ne hb]
  -- a channel that is registered now is this one, or was registered before
  have hreg : ∀ fd b, e'.poller.channels.lookup fd = some b → b ≠ channel →
      e.poller.channels.lookup fd = some b := by
    intro fd b hb hne
    rw [hlookup] at hb
    by_cases hfd : fd = (e.channels channel).fd
    · rw [if_pos hfd, Option.some.injEq] at hb
      exact absurd hb.symm hne
    · rw [if_neg hfd] at hb
      exact hb
  refine ⟨p', hok, ?_⟩
  refine { known := hknown, wf := hup.wf, lookup := ?_, object := ?_, fresh := ?_,
           stale := ?_, slot := ?_, deleted := ?_ }
  · intro fd
    rw [hup.lookup, hlookup, h.lookup]
  · intro a
    by_cases ha : a = channel
    · subst ha
      obtain ⟨k, hk⟩ := hup.self
      exact ⟨k, by rw [hk, hself]⟩
    · obtain ⟨k, hk⟩ := h.object a
      exact ⟨k, by rw [hup.others a ha, hothers a ha, hk]⟩
  · intro a ha hmem hnone
    have hne : a ≠ channel := by
      rintro rfl
      rw [hlookup, hself, ChannelOps.apply_fd, if_pos rfl] at hnone
      cases hnone
    rw [hlookup, hothers a hne, if_neg (h.fd_ne ha hS hne)] at hnone
    rw [hup.others a hne]
    exact h.fresh a ha (fun hpre => hmem (mem_append_update.mpr hpre)) hnone
  · intro a ha hmem
    have hpre : .remove a ∈ pre := mem_append_update.mp hmem
    have hne : a ≠ channel := by
      rintro rfl
      exact hnot hpre
    obtain ⟨hnone, hidx⟩ := h.stale a ha hpre
    rw [hlookup, hothers a hne, if_neg (h.fd_ne ha hS hne), hup.others a hne]
    exact ⟨hnone, hidx⟩
  · intro fd a ha
    by_cases hne : a = channel
    · subst hne
      obtain ⟨pfd, hslot, hfd⟩ := hup.slot
      refine ⟨pfd, hslot, ?_⟩
      rw [hself, h.slotFd_after hS (hk.update u a rfl)]
      exact hfd
    · have ha := hreg fd a ha hne
      obtain ⟨pfd, hslot, hfd⟩ := h.slot fd a ha
      have hrega : e.poller.channels.lookup (e.channels a).fd = some a := by
        rw [h.known.wf.fd fd a ha]
        exact ha
      rw [hothers a hne]
      exact ⟨pfd, hup.slots a pfd hne ((h.registered_iff a).mpr hrega) hslot, hfd⟩
  · intro fd a ha hdel
    by_cases hne : a = channel
    · subst hne
      rw [hself] at hdel ⊢
      exact (indexAfter_eq_kDeleted.mp hdel).2
    · rw [hothers a hne] at hdel ⊢
      exact h.deleted fd a (hreg fd a ha hne) hdel

/-! ## Removing -/

/-- The object of a channel that is being removed. -/
def offLoop (h : Channels) (channel : ChannelPtr) : Channels :=
  Function.update h channel { h channel with addedToLoop := false }

/-- Only the channel that is removed is off the loop. -/
theorem offLoop_of_ne {h : Channels} {b : ChannelPtr} (hb : b ≠ channel) :
    offLoop h channel b = h b := Function.update_of_ne hb ..

theorem offLoop_self (h : Channels) (channel : ChannelPtr) :
    offLoop h channel channel = { h channel with addedToLoop := false } :=
  Function.update_self ..

/-- What `EPollPoller` does in a removal that it executes. -/
theorem Agrees.remove_next (h : Agrees S pre e p) (hS : channel ∈ S)
    (hn : e.remove EPollPoller.calls channel = .ok e') :
    Known S e' ∧
      (e.channels channel).isNoneEvent = true ∧
      e.poller.channels.lookup (e.channels channel).fd = some channel ∧
      e'.channels = Poller.setIndex (offLoop e.channels channel) channel kNew ∧
      ∀ fd, e'.poller.channels.lookup fd =
        if fd = (e.channels channel).fd then none else e.poller.channels.lookup fd := by
  have hlegal : Legal EPollPoller.calls S e (.remove channel) := EPollPoller.legal_of_ok hS hn
  obtain ⟨hnone, hreg⟩ := hlegal.remove channel rfl
  obtain ⟨t, ht, hknown⟩ := h.known.remove hS hnone hreg
  obtain ⟨q, hq, hlookup, -⟩ := h.known.remove_eq hnone hreg
  rw [hn, Except.ok.injEq] at ht hq
  subst ht
  refine ⟨hknown, hnone, hreg, ?_, ?_⟩
  · rw [hq]
    rfl
  · rw [hq]
    exact hlookup

/-- What `PollPoller` does in a removal. -/
structure Removed (p p' : Loop PollPoller) (channel : ChannelPtr) : Prop where
  wf : p'.poller.WF p'.channels
  lookup : ∀ fd, p'.poller.channels.lookup fd =
    if fd = (p.channels channel).fd then none else p.poller.channels.lookup fd
  self : p'.channels channel = { p.channels channel with addedToLoop := false }
  same : ∀ b, b ≠ channel → ∃ k, p'.channels b = { p.channels b with index := k }
  others : ∀ b, b ≠ channel → p.poller.channels.lookup (p.channels b).fd ≠ some b →
    p'.channels b = p.channels b
  slots : ∀ b pfd, b ≠ channel → p.poller.channels.lookup (p.channels b).fd = some b →
    p.poller.Slot p.channels b pfd → p'.poller.Slot p'.channels b pfd

/-- The slot of the channel holds `-fd - 1` if it is out of the interest list. -/
theorem Agrees.disabled (h : Agrees S pre e p)
    (hreg : e.poller.channels.lookup (e.channels channel).fd = some channel)
    (hdel : (e.channels channel).index = kDeleted) :
    p.poller.Disabled p.channels channel := by
  obtain ⟨pfd, hslot, hfd⟩ := h.slot _ _ hreg
  rw [slotFd, if_pos hdel] at hfd
  rw [PollPoller.disabled_iff, h.fd]
  exact ⟨pfd, hslot, hfd⟩

/-- `PollPoller` follows a removal where the slot is negative. -/
theorem remove_poll (hwf : p.poller.WF p.channels)
    (hreg : p.poller.channels.lookup (p.channels channel).fd = some channel)
    (hnone : (p.channels channel).isNoneEvent = true)
    (hdis : p.poller.Disabled p.channels channel) :
    ∃ p', p.remove pollCalls channel = .ok p' ∧ Removed p p' channel := by
  have hagrees : Poller.Agrees p.channels (offLoop p.channels channel) :=
    ChannelOps.agrees_clearAdded p.channels channel
  have hfd := fun b => (hagrees b).1
  have hwf' := hwf.agrees hagrees
  have hcan : p.poller.CanRemove (offLoop p.channels channel) channel := by
    refine ⟨?_, ?_, hdis.agrees hagrees⟩
    · rw [hfd]
      exact hreg
    · rw [Channel.isNoneEvent, (hagrees channel).2.2]
      exact hnone
  obtain ⟨q, o, hok, hwfq, hrem, hslots⟩ := PollPoller.removeChannel_spec hwf' hcan
  have hframe := fun b hb => PollPoller.removeChannel_others (b := b) hwf' hok hb
  refine ⟨⟨q, o⟩, ?_, hwfq, ?_, ?_, ?_, ?_, ?_⟩
  · rw [Loop.remove, check_bind hnone]
    show (p.poller.removeChannel _ _ >>= _) = _
    rw [← offLoop, hok]
    rfl
  · rw [← hfd]
    exact hrem.lookup
  · rw [← offLoop_self]
    exact hframe channel (Or.inl rfl)
  · intro b hb
    rw [← offLoop_of_ne (h := p.channels) hb]
    exact hrem.same b
  · intro b hb hregb
    rw [← offLoop_of_ne (h := p.channels) hb]
    apply hframe b
    rw [hfd]
    exact Or.inr hregb
  · intro b pfd hb hregb hslot
    apply hslots b pfd hb
    · rw [hfd]
      exact hregb
    · obtain ⟨i, hi, hpfd⟩ := hslot
      exact ⟨i, by rw [offLoop_of_ne hb]; exact hi, hpfd⟩

/-- A removal is one of its own channel. -/
theorem mem_append_remove {a b : ChannelPtr} (hne : b ≠ a) :
    Op.remove b ∈ pre ++ [.remove a] ↔ Op.remove b ∈ pre := by
  rw [List.mem_append, List.mem_singleton]
  refine ⟨fun hmem => hmem.resolve_right ?_, Or.inl⟩
  rintro ⟨⟩
  exact hne rfl

/-- The relation behind a removal. -/
theorem Agrees.remove (h : Agrees S pre e p) (hS : channel ∈ S)
    (hn : e.remove EPollPoller.calls channel = .ok e') (hk : Keeps pre e (.remove channel)) :
    ∃ p', p.remove pollCalls channel = .ok p' ∧ Agrees S (pre ++ [.remove channel]) e' p' := by
  obtain ⟨hknown, hnone, hreg, hobj, hlookup⟩ := h.remove_next hS hn
  have hnonep : (p.channels channel).isNoneEvent = true := by
    rw [Channel.isNoneEvent, h.events]
    exact hnone
  obtain ⟨p', hok, hrem⟩ := remove_poll h.wf ((h.registered_iff channel).mpr hreg) hnonep
    (h.disabled hreg (hk.remove channel rfl))
  have hothers : ∀ b, b ≠ channel → e'.channels b = e.channels b := by
    intro b hb
    rw [hobj, Poller.setIndex_of_ne _ hb, offLoop_of_ne hb]
  have hself : e'.channels channel =
      { e.channels channel with addedToLoop := false, index := kNew } := by
    rw [hobj, Poller.setIndex_self, offLoop_self]
  have hstays : ∀ fd b, e'.poller.channels.lookup fd = some b →
      e.poller.channels.lookup fd = some b ∧ b ≠ channel := by
    intro fd b hb
    rw [hlookup] at hb
    by_cases hfd : fd = (e.channels channel).fd
    · rw [if_pos hfd] at hb
      cases hb
    · rw [if_neg hfd] at hb
      exact ⟨hb, h.known.wf.ptr_ne hb hfd⟩
  refine ⟨p', hok, ?_⟩
  refine { known := hknown, wf := hrem.wf, lookup := ?_, object := ?_, fresh := ?_,
           stale := ?_, slot := ?_, deleted := ?_ }
  · intro fd
    rw [hrem.lookup, hlookup, h.lookup, h.fd]
  · intro a
    obtain ⟨k, hold⟩ := h.object a
    by_cases ha : a = channel
    · subst ha
      exact ⟨k, by rw [hrem.self, hself, hold]⟩
    · obtain ⟨l, hl⟩ := hrem.same a ha
      exact ⟨l, by rw [hl, hothers a ha, hold]⟩
  · intro a ha hmem hnone
    have hne : a ≠ channel := by
      rintro rfl
      exact hmem (List.mem_append_right _ (List.mem_singleton_self _))
    rw [hlookup, hothers a hne, if_neg (h.fd_ne ha hS hne)] at hnone
    rw [hrem.others a hne (h.unregistered hnone)]
    exact h.fresh a ha (fun hpre => hmem ((mem_append_remove hne).mpr hpre)) hnone
  · intro a ha hmem
    by_cases hne : a = channel
    · subst hne
      obtain ⟨i, pfd, hi, -⟩ := h.disabled hreg (hk.remove a rfl)
      refine ⟨by rw [hlookup, hself, if_pos rfl], ?_⟩
      rw [hrem.self]
      show 0 ≤ (p.channels a).index
      omega
    · obtain ⟨hnone, hidx⟩ := h.stale a ha ((mem_append_remove hne).mp hmem)
      rw [hlookup, hothers a hne, if_neg (h.fd_ne ha hS hne),
        hrem.others a hne (h.unregistered hnone)]
      exact ⟨hnone, hidx⟩
  · intro fd a ha
    obtain ⟨ha, hne⟩ := hstays fd a ha
    obtain ⟨pfd, hslot, hfd⟩ := h.slot fd a ha
    have hrega : e.poller.channels.lookup (e.channels a).fd = some a := by
      rw [h.known.wf.fd fd a ha]
      exact ha
    rw [hothers a hne]
    exact ⟨pfd, hrem.slots a pfd hne ((h.registered_iff a).mpr hrega) hslot, hfd⟩
  · intro fd a ha hdel
    obtain ⟨ha, hne⟩ := hstays fd a ha
    rw [hothers a hne] at hdel ⊢
    exact h.deleted fd a ha hdel

/-! ## The condition is needed

One lemma for each of the three parts of `Keeps`, from a step of both pollers after which the
kernel is asked for the same.
-/

/-- `PollPoller` does not execute an update of a removed channel. -/
theorem Agrees.again (h : Agrees S pre e p) (hS : channel ∈ S) {u : Update}
    (hn : p.update pollCalls u channel = .ok p') : .remove channel ∉ pre := by
  intro hmem
  obtain ⟨hnone, hidx⟩ := h.stale channel hS hmem
  obtain ⟨r, hr, -⟩ := bind_eq_ok.mp hn
  have hends := PollPoller.updateChannel_ends p.poller channel
    (Function.update p.channels channel (u.apply (p.channels channel)))
  have hr : p.poller.updateChannel channel _ = .ok r := hr
  rw [hr] at hends
  rcases hends with ⟨-, hneg⟩ | hreg
  · rw [Function.update_self, ChannelOps.apply_index] at hneg
    omega
  · rw [Function.update_self, ChannelOps.apply_fd, h.fd, h.lookup, hnone] at hreg
    cases hreg

/-- `EPollPoller` adds a channel without events to the interest list again, `PollPoller` leaves
its slot negative. -/
theorem Agrees.silent (h : Agrees S pre e p) (hS : channel ∈ S) {u : Update}
    (hn : e.update EPollPoller.calls u channel = .ok e')
    (hnp : p.update pollCalls u channel = .ok p')
    (hsame : e'.poller.watched = p'.poller.watched)
    (hnone : (u.apply (e.channels channel)).isNoneEvent = true) :
    (e.channels channel).index ≠ kDeleted := by
  intro hdel
  have hfd := ChannelOps.apply_fd u (e.channels channel)
  have hreg : e.poller.channels.lookup (e.channels channel).fd ≠ none := by
    intro hnone
    rw [h.known.new channel hS hnone] at hdel
    cases hdel
  obtain ⟨q, hq, -, hinterest, -⟩ := h.known.update_eq hS u
  rw [hn, Except.ok.injEq] at hq
  have hin : ((e.channels channel).fd, (u.apply (e.channels channel)).events) ∈
      e'.poller.watched := by
    refine ⟨channel, ?_⟩
    have hon : ¬ ((u.apply (e.channels channel)).index = kAdded ∧
        (u.apply (e.channels channel)).isNoneEvent = true) := by
      rw [ChannelOps.apply_index, hdel]
      rintro ⟨hadd, -⟩
      cases hadd
    rw [hq, hinterest, Function.update_self, (EPollPoller.after_on channel hon).2]
  obtain ⟨t, ht, hup⟩ := h.update_poll hS u (h.again hS hnp)
  rw [hnp, Except.ok.injEq] at ht
  subst ht
  rw [hsame] at hin
  obtain ⟨pfd, hmem, hpfd, -⟩ := hin
  have hpfd : pfd.fd = (e.channels channel).fd := hpfd
  obtain ⟨x, hslot, hx⟩ := hup.slot
  rw [slotAfter, if_pos ⟨hreg, hnone⟩] at hx
  obtain ⟨k, hself⟩ := hup.self
  have hfdp : (p'.channels channel).fd = (e.channels channel).fd := by
    rw [hself]
    exact hfd
  have hregp : p'.poller.channels.lookup (p'.channels channel).fd = some channel := by
    rw [hup.lookup, if_pos hfdp]
  have hwatch : p'.poller.watches (p'.channels channel).fd = true := by
    rw [PollPoller.watches, List.any_eq_true]
    refine ⟨pfd, hmem, decide_eq_true ?_⟩
    rw [hfdp]
    exact hpfd
  have hxfd := (hup.wf.watches_iff hregp hslot).mp hwatch
  omega

/-- `PollPoller` asserts that the slot of a removed channel is negative. -/
theorem Agrees.removable (h : Agrees S pre e p) (hS : channel ∈ S)
    (hn : e.remove EPollPoller.calls channel = .ok e')
    (hnp : p.remove pollCalls channel = .ok p') : (e.channels channel).index = kDeleted := by
  have hlegal : Legal EPollPoller.calls S e (.remove channel) := EPollPoller.legal_of_ok hS hn
  have hreg := hlegal.remove channel rfl
  obtain ⟨_, -, hnp⟩ := bind_eq_ok.mp hnp
  obtain ⟨r, hr, -⟩ := bind_eq_ok.mp hnp
  obtain ⟨-, -, hdis⟩ := PollPoller.canRemove_of_ok hr
  obtain ⟨x, hx, hxfd⟩ := PollPoller.disabled_iff.mp hdis
  obtain ⟨pfd, hslot, hfd⟩ := h.slot _ _ hreg.2
  have hagrees := ChannelOps.agrees_clearAdded p.channels channel channel
  obtain ⟨i, hi, hpfd⟩ := hx
  rw [hagrees.2.1] at hi
  rw [hagrees.1, h.fd, PollPoller.Slot.unique ⟨i, hi, hpfd⟩ hslot, hfd] at hxfd
  by_contra hdel
  rw [slotFd, if_neg hdel] at hxfd
  omega

/-! ## Runs -/

variable {h₀ : Channels}

/-- With the condition, `PollPoller` can follow each operation, and the two agree again. -/
theorem Agrees.step (h : Agrees S pre e p) {op : Op} (hop : op.channel ∈ S)
    (hn : (EPollPoller.runs h₀).Next e op e') (hk : Keeps pre e op) :
    ∃ p', (pollRuns h₀).Next p op p' ∧ Agrees S (pre ++ [op]) e' p' := by
  have hn' : e.step EPollPoller.calls op = .ok e' := Option.some.inj hn
  cases op with
  | update u channel =>
      obtain ⟨p', hp', hagrees⟩ := h.update hop hn' hk
      exact ⟨p', congrArg some hp', hagrees⟩
  | remove channel =>
      obtain ⟨p', hp', hagrees⟩ := h.remove hop hn' hk
      exact ⟨p', congrArg some hp', hagrees⟩

/-- Without it, `PollPoller` fails an assertion, or asks the kernel for something else. -/
theorem Agrees.keeps (h : Agrees S pre e p) {op : Op} (hop : op.channel ∈ S)
    (hn : (EPollPoller.runs h₀).Next e op e') (hnp : (pollRuns h₀).Next p op p')
    (hsame : e'.poller.watched = p'.poller.watched) : Keeps pre e op := by
  have hn' : e.step EPollPoller.calls op = .ok e' := Option.some.inj hn
  have hnp' : p.step pollCalls op = .ok p' := Option.some.inj hnp
  constructor
  · rintro u a rfl
    exact h.again hop hnp'
  · rintro u a rfl hnone
    exact h.silent hop hn' hnp' hsame hnone
  · rintro a rfl
    exact h.removable hop hn' hnp'

/-- The pollers are interchangeable for exactly those sequences of operations on new channels
with different descriptors all of whose operations keep the condition. -/
theorem interchangeable_iff (hc : Constructed S h₀) (ops : List Op) :
    Interchangeable S h₀ ops ↔
      System.Meets (EPollPoller.runs h₀) (fun _ op => op.channel ∈ S) Keeps
        ⟨EPollPoller.new, h₀⟩ ops := by
  apply System.follows_iff_meets (R := Agrees S) (agrees_start hc)
  · intro pre e p h
    exact h.watched
  · intro pre e p op e' h hop hn hk
    exact h.step hop hn hk
  · intro pre e p op e' p' h hop hn hnp hsame
    exact h.keeps hop hn hnp hsame

/-- A channel reads, stops to read and is removed, while another one stays. -/
def readAndRemove : List Op :=
  [.update .enableReading 0, .update .enableReading 1, .update .disableAll 0, .remove 0]

theorem constructed_pair : Constructed {0, 1} (fun a => Channel.new (a + 5)) := by
  refine ⟨fun _ _ => rfl, ?_⟩
  intro a _ b _ hfd
  exact Nat.add_right_cancel hfd

theorem interchangeable_sample :
    Interchangeable {0, 1} (fun a => Channel.new (a + 5)) readAndRemove := by
  apply (interchangeable_iff constructed_pair _).mpr
  refine .cons ?_ rfl (.cons ?_ rfl (.cons ?_ rfl (.cons ?_ rfl System.meets_nil)))
  · exact ⟨by rintro u a ⟨⟩; decide, by rintro u a ⟨⟩; decide, nofun⟩
  · exact ⟨by rintro u a ⟨⟩; decide, by rintro u a ⟨⟩; decide, nofun⟩
  · exact ⟨by rintro u a ⟨⟩; decide, by rintro u a ⟨⟩; decide, nofun⟩
  · exact ⟨nofun, nofun, by rintro a ⟨⟩; rfl⟩

/-- The descriptor of an `Acceptor` that never listened: `disableAll` and `remove` on a new
channel. -/
theorem acceptor_not_listening : ¬ ∀ (S : Set ChannelPtr) (h : Channels) (ops : List Op),
    Constructed S h → Interchangeable S h ops := by
  intro hall
  have hc : Constructed {0} Channel.new := by
    refine ⟨fun _ _ => rfl, ?_⟩
    intro a ha b hb _
    rw [Set.mem_singleton_iff.mp ha, Set.mem_singleton_iff.mp hb]
  have hrun := System.run_of_exec (rfl : (EPollPoller.runs Channel.new).exec
    ⟨EPollPoller.new, Channel.new⟩ [.update .disableAll 0, .remove 0] = some (.ok _))
  have hops := hrun.of_actions (Q := fun _ op => op.channel ∈ ({0} : Set ChannelPtr)) (by
    intro op hop _
    simp only [List.mem_cons, List.not_mem_nil, or_false] at hop
    rcases hop with rfl | rfl <;> rfl)
  obtain ⟨p, hp, -⟩ := hall {0} Channel.new _ hc _ (List.prefix_refl _) _ hops
  have hfails : (pollRuns Channel.new).exec ⟨PollPoller.new, Channel.new⟩
      [.update .disableAll 0, .remove 0] = some (.error .slot) := rfl
  rw [hp.exec] at hfails
  cases hfails

end PollersAgree

end Zing.Net
