import Zing.Net.DefaultPoller

set_option autoImplicit false

/-! # The pollers of several loops

Each loop has a poller of its own, and the channel objects are in one heap. `Registry` says
which channels the pollers have: those that are `known`, each in the poller of its loop and
under its descriptor. What a poller does to one of its channels is nothing to the others.
-/

namespace Zing.Net

open Zing.Lib

namespace Poller

variable {p : Poller} {h h' : Channels} {channel : ChannelPtr}

/-- Only the channels of the poller matter. -/
theorem WF.registered (hwf : p.WF h) (ha : ∀ fd a, p.channels.lookup fd = some a →
    (h' a).fd = (h a).fd ∧ (h' a).index = (h a).index ∧ (h' a).events = (h a).events) :
    p.WF h' := by
  cases p with
  | epoll q =>
      have hwf : q.WF h := hwf
      refine ⟨?_, ?_, ?_, ?_, hwf.unregistered⟩
      · intro fd a hl
        rw [(ha fd a hl).1]
        exact hwf.fd fd a hl
      · intro fd a hl
        rw [(ha fd a hl).2.1]
        exact hwf.index fd a hl
      · intro fd a hl hi
        rw [(ha fd a hl).2.1] at hi
        rw [(ha fd a hl).2.2]
        exact hwf.added fd a hl hi
      · intro fd a hl hi
        rw [(ha fd a hl).2.1] at hi
        exact hwf.deleted fd a hl hi
  | poll q =>
      have hwf : q.WF h := hwf
      refine ⟨?_, ?_, ?_, hwf.size⟩
      · intro fd a hl
        rw [(ha fd a hl).1]
        exact hwf.fd fd a hl
      · intro fd a hl
        obtain ⟨i, pfd, hi, hpfd, hhold⟩ := hwf.slot fd a hl
        refine ⟨i, pfd, (ha fd a hl).2.1.trans hi, hpfd, ?_,
          hhold.events.trans (ha fd a hl).2.2.symm⟩
        rw [(ha fd a hl).1]
        exact hhold.fd
      · intro i pfd hpfd
        obtain ⟨a, hl, hi⟩ := hwf.owner i pfd hpfd
        exact ⟨a, hl, (ha _ a hl).2.1.trans hi⟩

/-- Whether a slot says that its channel watches nothing depends on the descriptor and the index.
-/
theorem Disabled.same (hd : p.Disabled h channel) (hfd : (h' channel).fd = (h channel).fd)
    (hidx : (h' channel).index = (h channel).index) : p.Disabled h' channel := by
  cases p with
  | epoll q => trivial
  | poll q =>
      obtain ⟨i, pfd, hi, hpfd, hslot⟩ := hd
      refine ⟨i, pfd, hidx.trans hi, hpfd, ?_⟩
      rw [hfd]
      exact hslot

end Poller

namespace LoopPollers

variable {L : Type}

/-- The pollers have the channels that are known: each one is in the poller of its loop, under
its descriptor, and nowhere else. A known channel that watches nothing is disabled there, so that
it can be removed. -/
structure Registry (poller : L → Poller) (h : Channels) (loop : ChannelPtr → L)
    (known : ChannelPtr → Prop) : Prop where
  wf : ∀ l, (poller l).WF h
  lookup : ∀ l fd a, (poller l).channels.lookup fd = some a ↔
    known a ∧ loop a = l ∧ (h a).fd = fd
  disabled : ∀ a, known a → (h a).isNoneEvent = true → (poller (loop a)).Disabled h a

/-- The channel is new, and its descriptor is not used on its loop. -/
structure Free (h : Channels) (loop : ChannelPtr → L) (known : ChannelPtr → Prop)
    (channel : ChannelPtr) : Prop where
  index : (h channel).index = -1
  fd : ∀ a, known a → loop a = loop channel → (h a).fd ≠ (h channel).fd

variable {poller : L → Poller} {h h' : Channels} {loop loop' : ChannelPtr → L}
  {known known' : ChannelPtr → Prop} {channel : ChannelPtr}

/-- `Registry` reads four things of a known channel: its loop, its descriptor, its index and its
events. -/
theorem Registry.congr (hr : Registry poller h loop known)
    (hknown : ∀ a, known' a ↔ known a)
    (hsame : ∀ a, known a → loop' a = loop a ∧ (h' a).fd = (h a).fd ∧
      (h' a).index = (h a).index ∧ (h' a).events = (h a).events) :
    Registry poller h' loop' known' where
  wf l := by
    apply (hr.wf l).registered
    intro fd a hl
    exact (hsame a ((hr.lookup l fd a).mp hl).1).2
  lookup l fd a := by
    rw [hr.lookup, hknown]
    constructor
    · rintro ⟨ha, hl, hfd⟩
      obtain ⟨hloop, hfd', -⟩ := hsame a ha
      exact ⟨ha, hloop.trans hl, hfd'.trans hfd⟩
    · rintro ⟨ha, hl, hfd⟩
      obtain ⟨hloop, hfd', -⟩ := hsame a ha
      exact ⟨ha, hloop.symm.trans hl, hfd'.symm.trans hfd⟩
  disabled a ha hn := by
    obtain ⟨hloop, hfd, hidx, hevents⟩ := hsame a ((hknown a).mp ha)
    rw [Channel.isNoneEvent, hevents] at hn
    rw [hloop]
    exact (hr.disabled a ((hknown a).mp ha) hn).same hfd hidx

/-- A known channel is in the poller of its loop. -/
theorem Registry.registered (hr : Registry poller h loop known) (ha : known channel) :
    (poller (loop channel)).Registered h channel := (hr.lookup _ _ _).mpr ⟨ha, rfl, rfl⟩

/-- A new channel whose descriptor is free may be registered, and a known one updated. -/
theorem Registry.canUpdate (hr : Registry poller h loop known)
    (hcan : known channel ∨ Free h loop known channel) :
    (poller (loop channel)).Fresh h channel ∨ (poller (loop channel)).Registered h channel := by
  rcases hcan with hknown | hfree
  · exact Or.inr (hr.registered hknown)
  · refine Or.inl ⟨?_, hfree.index⟩
    apply Option.eq_none_iff_forall_ne_some.mpr
    intro a ha
    obtain ⟨hka, hla, hfd⟩ := (hr.lookup _ _ _).mp ha
    exact hfree.fd a hka hla hfd

/-- No other channel of the loop has the descriptor. -/
theorem Registry.own (hr : Registry poller h loop known)
    (hcan : known channel ∨ Free h loop known channel) {a : ChannelPtr} (ha : known a)
    (hloop : loop a = loop channel) (hfd : (h a).fd = (h channel).fd) : a = channel := by
  rcases hcan with hknown | hfree
  · have hself := hr.registered hknown
    have hother := (hr.lookup _ _ _).mpr ⟨ha, hloop, hfd⟩
    rw [Poller.Registered, hother] at hself
    exact Option.some.inj hself
  · exact absurd hfd (hfree.fd a ha hloop)

/-- New pollers. -/
theorem registry_start {usePoll : L → Bool} :
    Registry (fun l => Poller.newDefaultPoller (usePoll l)) h loop fun _ => False where
  wf l := Poller.newDefaultPoller_wf (usePoll l) h
  lookup l fd a := by
    have hnone : (Poller.newDefaultPoller (usePoll l)).channels.lookup fd = none := by
      cases usePoll l <;> rfl
    rw [hnone]
    simp
  disabled a ha := ha.elim

variable [DecidableEq L] {l : L} {p' : Poller}

/-- One poller changes, and with it the channels of its loop. -/
theorem Registry.change (hr : Registry poller h loop known) (hwf : p'.WF h')
    (hlookup : ∀ fd a, p'.channels.lookup fd = some a ↔
      known' a ∧ loop a = l ∧ (h' a).fd = fd)
    (hdisabled : ∀ a, known' a → loop a = l → (h' a).isNoneEvent = true → p'.Disabled h' a)
    (hothers : ∀ a, loop a ≠ l → (known' a ↔ known a) ∧ h' a = h a) :
    Registry (Function.update poller l p') h' loop known' where
  wf k := by
    by_cases hk : k = l
    · subst hk
      rw [Function.update_self]
      exact hwf
    · rw [Function.update_of_ne hk]
      apply (hr.wf k).registered
      intro fd a ha
      have hloop : loop a ≠ l := by
        rw [((hr.lookup k fd a).mp ha).2.1]
        exact hk
      rw [(hothers a hloop).2]
      exact ⟨rfl, rfl, rfl⟩
  lookup k fd a := by
    by_cases hk : k = l
    · subst hk
      rw [Function.update_self]
      exact hlookup fd a
    · rw [Function.update_of_ne hk, hr.lookup]
      -- a channel of another loop keeps its object, and one of this loop is not in that poller
      by_cases hloop : loop a = k
      · have ha := hothers a (by rwa [hloop])
        rw [ha.1, ha.2]
      · simp [hloop]
  disabled a ha hn := by
    by_cases hloop : loop a = l
    · rw [hloop, Function.update_self]
      exact hdisabled a ha hloop hn
    · obtain ⟨hknown, hsame⟩ := hothers a hloop
      rw [hsame] at hn
      rw [Function.update_of_ne hloop]
      exact (hr.disabled a (hknown.mp ha) hn).same (by rw [hsame]) (by rw [hsame])

/-- The object of a channel has become `c`, and its poller is told. -/
theorem Registry.update (hr : Registry poller h loop known)
    (hcan : known channel ∨ Free h loop known channel) {c : Channel}
    (hfd : c.fd = (h channel).fd) (hidx : c.index = (h channel).index)
    (hnew : ¬ known channel → c.isNoneEvent = false) :
    ∃ p' h', (poller (loop channel)).updateChannel channel (Function.update h channel c) =
        .ok (p', h') ∧
      Registry (Function.update poller (loop channel) p') h' loop
        (fun a => a = channel ∨ known a) ∧
      (∃ k, h' channel = { c with index := k }) ∧ ∀ a, a ≠ channel → h' a = h a := by
  obtain ⟨p', h', hok, hwf', hup, hothers, hself⟩ :=
    Poller.updateChannel_spec (hr.wf (loop channel)) (hr.canUpdate hcan) hfd hidx
  obtain ⟨k, hk⟩ := hup.self
  have hfd' : (h' channel).fd = c.fd := by rw [hk]
  refine ⟨p', h', hok, hr.change hwf' ?_ ?_ ?_, hup.self, hup.others⟩
  · intro fd a
    rw [hup.lookup]
    -- the entry of the descriptor is the channel, and every other one is as it was
    by_cases ha : a = channel
    · subst ha
      rw [hfd']
      split
      · rename_i heq
        simp [heq]
      · rename_i hne
        rw [hr.lookup, ← hfd]
        simp [Ne.symm hne]
    · rw [hup.others a ha]
      split
      · rename_i heq
        rw [heq, hfd]
        constructor
        · intro hsame
          exact absurd (Option.some.inj hsame).symm ha
        · rintro ⟨hka, hla, hfda⟩
          exact absurd (hr.own hcan (hka.resolve_left ha) hla hfda) ha
      · rw [hr.lookup]
        simp [ha]
  · intro a ha hloop hn
    by_cases hac : a = channel
    · subst hac
      rw [hk] at hn
      have hnone : c.isNoneEvent = true := hn
      -- what is new to the poller watches something
      have hknown : known a := by
        by_contra hnot
        rw [hnew hnot] at hnone
        cases hnone
      exact hself (hr.registered hknown) hnone
    · have hka := ha.resolve_left hac
      rw [hup.others a hac] at hn
      have hreg := hr.registered hka
      have hold := hr.disabled a hka hn
      rw [hloop] at hreg hold
      exact hothers a hac hreg hold
  · intro a hloop
    have hne : a ≠ channel := by
      rintro rfl
      exact hloop rfl
    refine ⟨?_, hup.others a hne⟩
    simp [hne]

/-- A known channel that watches nothing leaves its poller. -/
theorem Registry.remove (hr : Registry poller h loop known) (hknown : known channel)
    (hnone : (h channel).isNoneEvent = true) :
    ∃ p' h', (poller (loop channel)).removeChannel channel h = .ok (p', h') ∧
      Registry (Function.update poller (loop channel) p') h' loop
        (fun a => known a ∧ a ≠ channel) ∧
      (∀ a, ∃ k, h' a = { h a with index := k }) ∧
      ∀ a, ¬ known a → h' a = h a := by
  have hreg := hr.registered hknown
  obtain ⟨p', h', hok, hwf', hrem, hothers⟩ := Poller.removeChannel_spec (hr.wf (loop channel))
    hreg hnone (hr.disabled channel hknown hnone)
  -- an index changes only where the poller has the channel
  have hsame : ∀ a, ¬ (known a ∧ loop a = loop channel) → h' a = h a := by
    intro a ha
    apply Poller.removeChannel_unregistered (hr.wf (loop channel)) hok
    · rintro rfl
      exact ha ⟨hknown, rfl⟩
    · intro hra
      obtain ⟨hka, hla, -⟩ := (hr.lookup _ _ _).mp hra
      exact ha ⟨hka, hla⟩
  refine ⟨p', h', hok, hr.change hwf' ?_ ?_ ?_, hrem.same, fun a ha => hsame a fun hk => ha hk.1⟩
  · intro fd a
    obtain ⟨k, hk⟩ := hrem.same a
    rw [hrem.lookup, hk]
    split
    · rename_i heq
      subst heq
      constructor
      · rintro ⟨⟩
      · rintro ⟨⟨hka, hne⟩, hla, hfda⟩
        exact absurd (hr.own (Or.inl hknown) hka hla hfda) hne
    · rename_i hne
      rw [hr.lookup]
      constructor
      · rintro ⟨hka, hla, rfl⟩
        refine ⟨⟨hka, ?_⟩, hla, rfl⟩
        rintro rfl
        exact hne rfl
      · rintro ⟨⟨hka, -⟩, hla, hfda⟩
        exact ⟨hka, hla, hfda⟩
  · rintro a ⟨hka, hne⟩ hloop hn
    obtain ⟨k, hk⟩ := hrem.same a
    rw [hk] at hn
    have hra := hr.registered hka
    have hold := hr.disabled a hka hn
    rw [hloop] at hra hold
    exact hothers a hne hra hold
  · intro a hloop
    refine ⟨?_, hsame a fun hk => hloop hk.2⟩
    have hne : a ≠ channel := by
      rintro rfl
      exact hloop rfl
    simp [hne]

end LoopPollers

end Zing.Net
