import Mathlib.Data.Set.Function
import Zing.Lib.System
import Zing.Net.Poller

set_option autoImplicit false

/-! # Channels and their poller

What the owner of a channel does with it: the functions of `Channel` that end in `update()`,
and `remove()`. `runs` are the sequences of such calls on the channels of one loop, for any
poller; they are made outside of event handling, where `EventLoop::updateChannel` and
`EventLoop::removeChannel` only hand the channel on to the poller.
-/

namespace Zing.Net.ChannelOps

open Zing.Lib
open Poller (Assertion)

/-- The functions of `Channel` that change what it watches. -/
inductive Update
  | enableReading
  | disableReading
  | enableWriting
  | disableWriting
  | disableAll
  deriving DecidableEq, Repr

/-- What such a function does to the channel itself. -/
def Update.apply : Update → Channel → Channel
  | enableReading, c => c.enableReading
  | disableReading, c => c.disableReading
  | enableWriting, c => c.enableWriting
  | disableWriting, c => c.disableWriting
  | disableAll, c => c.disableAll

inductive Op
  | update (u : Update) (channel : ChannelPtr)
  | remove (channel : ChannelPtr)
  deriving DecidableEq, Repr

def Op.channel : Op → ChannelPtr
  | update _ channel => channel
  | remove channel => channel

/-- The functions of a poller that channels use. -/
structure Calls (P : Type) where
  channels : P → ChannelMap
  updateChannel : P → ChannelPtr → Channels → Except Assertion (P × Channels)
  removeChannel : P → ChannelPtr → Channels → Except Assertion (P × Channels)

/-- A poller and the channel objects of its loop. -/
structure Loop (P : Type) where
  poller : P
  channels : Channels

variable {P : Type} (calls : Calls P)

namespace Loop

/-- One of the functions that end in `update()`. -/
def update (s : Loop P) (u : Update) (channel : ChannelPtr) : Except Assertion (Loop P) := do
  let c := u.apply (s.channels channel)
  let r ← calls.updateChannel s.poller channel (Function.update s.channels channel c)
  .ok { poller := r.1, channels := r.2 }

/-- `Channel::remove` -/
def remove (s : Loop P) (channel : ChannelPtr) : Except Assertion (Loop P) := do
  let c := s.channels channel
  check (c.isNoneEvent = true) .noneEvent
  let c := { c with addedToLoop := false }
  let r ← calls.removeChannel s.poller channel (Function.update s.channels channel c)
  .ok { poller := r.1, channels := r.2 }

def step (s : Loop P) : Op → Except Assertion (Loop P)
  | .update u channel => s.update calls u channel
  | .remove channel => s.remove calls channel

end Loop

/-- The channels have just been constructed, and have different descriptors. -/
structure Constructed (S : Set ChannelPtr) (h : Channels) : Prop where
  new : ∀ a ∈ S, h a = Channel.new (h a).fd
  distinct : Set.InjOn (fun a => (h a).fd) S

/-- The sequences of operations that begin with the poller `p` and the channels `h`. -/
def runs (p : P) (h : Channels) : System (Loop P) Op Assertion where
  init s := s = { poller := p, channels := h }
  step s op := some (s.step calls op)

/-- Only a registered channel without events is removed. -/
structure Legal (S : Set ChannelPtr) (s : Loop P) (op : Op) : Prop where
  channel : op.channel ∈ S
  remove : ∀ a, op = .remove a → (s.channels a).isNoneEvent = true ∧
    (calls.channels s.poller).lookup (s.channels a).fd = some a

theorem apply_fd (u : Update) (c : Channel) : (u.apply c).fd = c.fd := by
  cases u <;> rfl

theorem apply_index (u : Update) (c : Channel) : (u.apply c).index = c.index := by
  cases u <;> rfl

/-- A channel that is off the loop is the same to the poller. -/
theorem agrees_clearAdded (h : Channels) (channel : ChannelPtr) :
    Poller.Agrees h (Function.update h channel { h channel with addedToLoop := false }) := by
  intro a
  by_cases ha : a = channel
  · subst ha
    rw [Function.update_self]
    exact ⟨rfl, rfl, rfl⟩
  · rw [Function.update_of_ne ha]
    exact ⟨rfl, rfl, rfl⟩

end Zing.Net.ChannelOps
