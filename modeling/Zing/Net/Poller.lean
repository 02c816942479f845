import Mathlib.Data.List.AList
import Mathlib.Logic.Function.Basic
import Zing.Lib.Assert
import Zing.Net.Channel

set_option autoImplicit false

/-! # Pollers

What `EPollPoller` and `PollPoller` have in common: the map from descriptors to channels, the
channel objects it points to, and their assertions. `Updates` and `Removes` say what
`updateChannel` and `removeChannel` do to these two, whichever the poller is.
-/

namespace Zing.Net

open Zing.Lib

/-- A `Channel *`. -/
abbrev ChannelPtr := Nat

/-- `ChannelMap`, from descriptors to channels. -/
abbrev ChannelMap := AList (fun _ : Nat => ChannelPtr)

/-- The channel objects. -/
abbrev Channels := ChannelPtr → Channel

namespace Poller

/-- The assertions of the two pollers, with the fatal error of `epoll_ctl` and the use of a
null pointer from `channels_` as two more. -/
inductive Assertion
  | unregistered
  | registered
  | sameChannel
  | noneEvent
  | index
  | slot
  | nullChannel
  | epollCtl
  deriving DecidableEq, Repr

/-- `set_index` on one channel. -/
def setIndex (h : Channels) (channel : ChannelPtr) (idx : Int) : Channels :=
  Function.update h channel { h channel with index := idx }

theorem setIndex_self (h : Channels) (channel : ChannelPtr) (idx : Int) :
    setIndex h channel idx channel = { h channel with index := idx } :=
  Function.update_self ..

theorem setIndex_of_ne {h : Channels} {channel b : ChannelPtr} (idx : Int) (hb : b ≠ channel) :
    setIndex h channel idx b = h b :=
  Function.update_of_ne hb ..

/-- At most the index changes. -/
theorem setIndex_eq (h : Channels) (channel b : ChannelPtr) (idx : Int) :
    ∃ k, setIndex h channel idx b = { h b with index := k } := by
  by_cases hb : b = channel
  · subst hb
    exact ⟨idx, setIndex_self ..⟩
  · exact ⟨(h b).index, setIndex_of_ne idx hb⟩

/-- The two assertions with which every operation on a registered channel begins. -/
def checkRegistered (channels : ChannelMap) (channel : ChannelPtr) (fd : Nat) :
    Except Assertion Unit := do
  check (channels.lookup fd ≠ none) .registered
  check (channels.lookup fd = some channel) .sameChannel

theorem checkRegistered_eq_ok {channels : ChannelMap} {channel : ChannelPtr} {fd : Nat}
    {u : Unit} (h : checkRegistered channels channel fd = .ok u) :
    channels.lookup fd = some channel := by
  obtain ⟨-, -, hsame⟩ := bind_eq_ok.mp h
  exact check_eq_ok.mp hsame

theorem checkRegistered_ends {channels : ChannelMap} {channel : ChannelPtr} {fd : Nat}
    {E : Assertion → Prop} (hE : E .registered ∧ E .sameChannel) :
    Ends (fun _ => channels.lookup fd = some channel) E
      (checkRegistered channels channel fd) := by
  apply Ends.check (fun _ => hE.1)
  intro _
  by_cases hsame : channels.lookup fd = some channel
  · rw [check_ok hsame]
    exact hsame
  · rw [check_error hsame]
    exact hE.2

theorem checkRegistered_ok {channels : ChannelMap} {channel : ChannelPtr} {fd : Nat}
    (h : channels.lookup fd = some channel) : checkRegistered channels channel fd = .ok () := by
  have hne : channels.lookup fd ≠ none := by
    rw [h]
    exact Option.some_ne_none channel
  rw [checkRegistered, check_bind hne, check_ok h]

/-- `channel`, whose object has become `c`, is registered, and only its index is set. -/
structure Updates (channels channels' : ChannelMap) (h h' : Channels) (channel : ChannelPtr)
    (c : Channel) : Prop where
  lookup : ∀ fd, channels'.lookup fd = if fd = c.fd then some channel else channels.lookup fd
  self : ∃ k, h' channel = { c with index := k }
  others : ∀ b, b ≠ channel → h' b = h b

/-- `channel` is not registered any more, and some index may have changed. -/
structure Removes (channels channels' : ChannelMap) (h h' : Channels) (channel : ChannelPtr) :
    Prop where
  lookup : ∀ fd, channels'.lookup fd = if fd = (h channel).fd then none else channels.lookup fd
  same : ∀ b, ∃ k, h' b = { h b with index := k }

/-- The objects are the same, except for what no poller looks at. -/
def Agrees (h h' : Channels) : Prop :=
  ∀ a, (h' a).fd = (h a).fd ∧ (h' a).index = (h a).index ∧ (h' a).events = (h a).events

theorem lookup_insert_eq (channels : ChannelMap) (channel : ChannelPtr) (fd fd' : Nat) :
    (channels.insert fd channel).lookup fd' =
      if fd' = fd then some channel else channels.lookup fd' := by
  by_cases hfd : fd' = fd
  · rw [if_pos hfd, hfd, AList.lookup_insert]
  · rw [if_neg hfd, AList.lookup_insert_ne hfd]

theorem lookup_erase_eq (channels : ChannelMap) (fd fd' : Nat) :
    (channels.erase fd).lookup fd' = if fd' = fd then none else channels.lookup fd' := by
  by_cases hfd : fd' = fd
  · rw [if_pos hfd, hfd, AList.lookup_erase]
  · rw [if_neg hfd, AList.lookup_erase_ne hfd]

/-- The map stays as it is when a registered channel is updated. -/
theorem lookup_registered {channels : ChannelMap} {channel : ChannelPtr} {fd : Nat}
    (h : channels.lookup fd = some channel) (fd' : Nat) :
    channels.lookup fd' = if fd' = fd then some channel else channels.lookup fd' := by
  by_cases hfd : fd' = fd
  · rw [if_pos hfd, hfd, h]
  · rw [if_neg hfd]

end Poller

end Zing.Net
