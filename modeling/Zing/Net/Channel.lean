set_option autoImplicit false

/-! # `Channel`

The interest of a file descriptor in events, as `Channel.h` and `Channel.cpp` keep it. An
event mask (`events_`, `revents_`) is the set of its flags, with the bit operations of the
source acting flag by flag.

The functions `enableReading` to `disableAll` change the interest and mark the channel as
added; the call of `loop_->updateChannel(this)` at their end is left to the caller, who has
the poller at hand.
-/

namespace Zing.Net

/-- A mask of `poll(2)` flags. -/
structure Events where
  pollIn : Bool := false
  pollPri : Bool := false
  pollOut : Bool := false
  pollErr : Bool := false
  pollHup : Bool := false
  pollNval : Bool := false
  pollRdhup : Bool := false
  deriving DecidableEq, Repr

namespace Events

/-- `a | b` -/
def or (a b : Events) : Events where
  pollIn := a.pollIn || b.pollIn
  pollPri := a.pollPri || b.pollPri
  pollOut := a.pollOut || b.pollOut
  pollErr := a.pollErr || b.pollErr
  pollHup := a.pollHup || b.pollHup
  pollNval := a.pollNval || b.pollNval
  pollRdhup := a.pollRdhup || b.pollRdhup

/-- `a & b` -/
def and (a b : Events) : Events where
  pollIn := a.pollIn && b.pollIn
  pollPri := a.pollPri && b.pollPri
  pollOut := a.pollOut && b.pollOut
  pollErr := a.pollErr && b.pollErr
  pollHup := a.pollHup && b.pollHup
  pollNval := a.pollNval && b.pollNval
  pollRdhup := a.pollRdhup && b.pollRdhup

/-- `~a` -/
def compl (a : Events) : Events where
  pollIn := !a.pollIn
  pollPri := !a.pollPri
  pollOut := !a.pollOut
  pollErr := !a.pollErr
  pollHup := !a.pollHup
  pollNval := !a.pollNval
  pollRdhup := !a.pollRdhup

/-- The mask with no flag set, `0` in the source. -/
def none : Events := {}

/-- A mask used as a condition: some flag is set. -/
def nonzero (a : Events) : Bool := a ≠ none

end Events

def kNoneEvent : Events := Events.none
def kReadEvent : Events := { pollIn := true, pollPri := true }
def kWriteEvent : Events := { pollOut := true }

/-- `class Channel`, without the callbacks, which the owner of the channel supplies. -/
structure Channel where
  fd : Nat
  events : Events
  revents : Events
  index : Int
  tied : Bool
  eventHandling : Bool
  addedToLoop : Bool
  deriving DecidableEq, Repr

namespace Channel

/-- `Channel(EventLoop* loop, int fd)` -/
def new (fd : Nat) : Channel where
  fd := fd
  events := kNoneEvent
  revents := kNoneEvent
  index := -1
  tied := false
  eventHandling := false
  addedToLoop := false

def isNoneEvent (c : Channel) : Bool := c.events = kNoneEvent
def isWriting (c : Channel) : Bool := (c.events.and kWriteEvent).nonzero
def isReading (c : Channel) : Bool := (c.events.and kReadEvent).nonzero

/-- What `update()` does to the channel itself. -/
def update (c : Channel) : Channel := { c with addedToLoop := true }

def enableReading (c : Channel) : Channel :=
  update { c with events := c.events.or kReadEvent }

def disableReading (c : Channel) : Channel :=
  update { c with events := c.events.and kReadEvent.compl }

def enableWriting (c : Channel) : Channel :=
  update { c with events := c.events.or kWriteEvent }

def disableWriting (c : Channel) : Channel :=
  update { c with events := c.events.and kWriteEvent.compl }

def disableAll (c : Channel) : Channel := update { c with events := kNoneEvent }

def tie (c : Channel) : Channel := { c with tied := true }

/-! ## Dispatch -/

/-- The callbacks that `handleEventWithGuard` invokes. -/
inductive Handler
  | close
  | error
  | read
  | write
  deriving DecidableEq, Repr

/-- The callbacks that `handleEventWithGuard` invokes for `revents_`, in its order. No
callback changes `revents_`, so the tests can all be made at the beginning. -/
def handlers (c : Channel) : List Handler :=
  (if c.revents.pollHup && !c.revents.pollIn then [.close] else [])
    ++ (if (c.revents.and { pollErr := true, pollNval := true }).nonzero then [.error] else [])
    ++ (if (c.revents.and { pollIn := true, pollPri := true, pollRdhup := true }).nonzero then
        [.read] else [])
    ++ (if c.revents.pollOut then [.write] else [])

/-- What a poll may report for the channel: events it watches, errors and hangups. -/
def mayReport (c : Channel) (revents : Events) : Bool :=
  revents.and (c.events.or { pollErr := true, pollHup := true, pollNval := true }).compl
    = Events.none

/-! ## The write and the read interest under the operations -/

theorem isWriting_eq (c : Channel) : c.isWriting = c.events.pollOut := by
  cases h : c.events.pollOut <;>
    simp [isWriting, Events.and, kWriteEvent, Events.nonzero, Events.none, h]

theorem isReading_eq (c : Channel) :
    c.isReading = (c.events.pollIn || c.events.pollPri) := by
  cases h : c.events.pollIn <;> cases h' : c.events.pollPri <;>
    simp [isReading, Events.and, kReadEvent, Events.nonzero, Events.none, h, h']

@[simp] theorem isWriting_enableWriting (c : Channel) : c.enableWriting.isWriting = true := by
  simp [isWriting_eq, enableWriting, update, Events.or, kWriteEvent]

@[simp] theorem isWriting_disableWriting (c : Channel) :
    c.disableWriting.isWriting = false := by
  simp [isWriting_eq, disableWriting, update, Events.and, Events.compl, kWriteEvent]

@[simp] theorem isWriting_enableReading (c : Channel) :
    c.enableReading.isWriting = c.isWriting := by
  simp [isWriting_eq, enableReading, update, Events.or, kReadEvent]

@[simp] theorem isWriting_disableReading (c : Channel) :
    c.disableReading.isWriting = c.isWriting := by
  simp [isWriting_eq, disableReading, update, Events.and, Events.compl, kReadEvent]

@[simp] theorem isWriting_disableAll (c : Channel) : c.disableAll.isWriting = false := by
  simp [isWriting_eq, disableAll, update, kNoneEvent, Events.none]

@[simp] theorem isReading_enableReading (c : Channel) : c.enableReading.isReading = true := by
  simp [isReading_eq, enableReading, update, Events.or, kReadEvent]

@[simp] theorem isReading_enableWriting (c : Channel) :
    c.enableWriting.isReading = c.isReading := by
  simp [isReading_eq, enableWriting, update, Events.or, kWriteEvent]

@[simp] theorem isReading_disableWriting (c : Channel) :
    c.disableWriting.isReading = c.isReading := by
  simp [isReading_eq, disableWriting, update, Events.and, Events.compl, kWriteEvent]

@[simp] theorem isNoneEvent_disableAll (c : Channel) : c.disableAll.isNoneEvent = true := by
  simp [isNoneEvent, disableAll, update]

/-- A channel that watches for reading watches something. -/
theorem isNoneEvent_eq_false_of_isReading {c : Channel} (h : c.isReading = true) :
    c.isNoneEvent = false := by
  rw [isReading_eq] at h
  simp only [isNoneEvent, decide_eq_false_iff_not]
  intro hn
  rw [hn] at h
  cases h

end Channel

end Zing.Net
