import Zing.Net.ChannelOps
import Zing.Net.EPollWait

set_option autoImplicit false

/-! # The channels of an event loop

`EventLoop::loop` over an `EPollPoller`, with the user code that it calls: in its handlers, in
functors and outside of `loop()` the user constructs and destroys channels, changes what they
watch and removes them from the loop. A channel object lives at an address, which is free again
behind its destructor. The user calls functions of channels that exist only, on the thread of
the loop, and closes no descriptor of a registered channel.

`Registry` relates the poller's record of the channels to the objects that exist, and to the
`addedToLoop_` of each.
-/

namespace Zing.Net.EventDispatch

open Zing.Lib
open ChannelOps (Update)
open EPollPoller (EpollEvent WaitResult PollAssertion kNew)

/-- The assertions of `EventLoop`, `Channel` and the poller. -/
inductive Assertion
  | poll (e : PollAssertion)
  | freed
  | poller (e : Poller.Assertion)
  /-- `isNoneEvent()` in `Channel::remove` -/
  | noneEvent
  /-- The assertion of `EventLoop::removeChannel`. -/
  | activeChannels
  /-- The assertions of `~Channel`. -/
  | eventHandling
  | addedToLoop
  | hasChannel
  deriving DecidableEq, Repr

/-- Where the thread of the loop is. -/
inductive Phase
  /-- Not in `loop()`. -/
  | outside
  /-- In front of `while (!quit_)`. -/
  | condition
  /-- In the loop over `activeChannels_`, of which `todo` are left. -/
  | iterating (todo : List ChannelPtr)
  /-- In `handleEventWithGuard` of `currentActiveChannel_`, with the callbacks `rest` left. -/
  | handling (todo : List ChannelPtr) (rest : List Channel.Handler)
  /-- In `doPendingFunctors`. -/
  | functors
  deriving DecidableEq, Repr

namespace Phase

/-- The thread may be in code of the user. -/
def userCode : Phase → Bool
  | outside => true
  | handling _ _ => true
  | functors => true
  | _ => false

/-- The active channels that `loop` has not come to. -/
def todo : Phase → List ChannelPtr
  | iterating todo => todo
  | handling todo _ => todo
  | _ => []

end Phase

/-- The loop, its poller, and the channel objects, of which those with `live` exist. `size` is
that of the poller's `events_`. -/
structure World where
  poller : EPollPoller
  size : Nat
  channels : Channels
  live : ChannelPtr → Bool
  eventHandling : Bool
  activeChannels : List ChannelPtr
  currentActiveChannel : Option ChannelPtr
  phase : Phase

/-- A new loop, without its two own channels, which are made like any other. -/
def World.new : World where
  poller := EPollPoller.new
  size := EPollPoller.kInitEventListSize
  channels := fun _ => Channel.new 0
  live := fun _ => false
  eventHandling := false
  activeChannels := []
  currentActiveChannel := none
  phase := .outside

inductive UserOp
  | construct (channel : ChannelPtr) (fd : Nat)
  | destroy (channel : ChannelPtr)
  | tie (channel : ChannelPtr)
  | update (u : Update) (channel : ChannelPtr)
  | remove (channel : ChannelPtr)
  deriving DecidableEq, Repr

/-- A step of the thread of the loop. -/
inductive Action
  | enter
  /-- `quit_` was set. -/
  | leave
  /-- The descriptors have the events `ready`, and `epoll_wait` reports on `fds`. -/
  | poll (ready : Nat → Events) (fds : List Nat)
  /-- `epoll_wait` fails. -/
  | pollError
  /-- Go on to the next active channel; `guard` says whether `tie_.lock()` succeeds. -/
  | next (guard : Bool)
  /-- Call the next callback of `handleEventWithGuard`. -/
  | callback
  | handled
  | finish
  | again
  | user (op : UserOp)

namespace World

variable (w : World)

/-- `Poller::hasChannel` -/
def hasChannel (channel : ChannelPtr) : Bool :=
  w.poller.channels.lookup (w.channels channel).fd = some channel

/-! ## The functions of the user -/

/-- `Channel(EventLoop* loop, int fd)`, at a free address -/
def construct (channel : ChannelPtr) (fd : Nat) : World :=
  { w with
    channels := Function.update w.channels channel (Channel.new fd)
    live := Function.update w.live channel true }

/-- `~Channel` -/
def destroy (channel : ChannelPtr) : Except Assertion World := do
  check ((w.channels channel).eventHandling = false) .eventHandling
  check ((w.channels channel).addedToLoop = false) .addedToLoop
  check (w.hasChannel channel = false) .hasChannel
  .ok { w with live := Function.update w.live channel false }

def tie (channel : ChannelPtr) : World :=
  { w with channels := Function.update w.channels channel (w.channels channel).tie }

/-- The functions of a channel that end in `update()`, with `EventLoop::updateChannel`. -/
def update (u : Update) (channel : ChannelPtr) : Except Assertion World := do
  let c := u.apply (w.channels channel)
  let r ← nested .poller
    (w.poller.updateChannel channel (Function.update w.channels channel c))
  .ok { w with poller := r.1, channels := r.2 }

/-- The assertion of `EventLoop::removeChannel`. -/
def mayRemove (channel : ChannelPtr) : Bool :=
  !w.eventHandling || w.currentActiveChannel = some channel || channel ∉ w.activeChannels

/-- `Channel::remove`, with `EventLoop::removeChannel` -/
def remove (channel : ChannelPtr) : Except Assertion World := do
  check ((w.channels channel).isNoneEvent = true) .noneEvent
  let c := { w.channels channel with addedToLoop := false }
  check (w.mayRemove channel = true) .activeChannels
  let r ← nested .poller
    (w.poller.removeChannel channel (Function.update w.channels channel c))
  .ok { w with poller := r.1, channels := r.2 }

/-- What the user does to channels that exist, or to a free address. -/
def perform : UserOp → Option (Except Assertion World)
  | .construct channel fd =>
      if w.live channel = false then some (.ok (w.construct channel fd)) else none
  | .destroy channel => if w.live channel = true then some (w.destroy channel) else none
  | .tie channel => if w.live channel = true then some (.ok (w.tie channel)) else none
  | .update u channel => if w.live channel = true then some (w.update u channel) else none
  | .remove channel => if w.live channel = true then some (w.remove channel) else none

/-! ## The loop -/

/-- The call of `poll` in `loop`. -/
def poll (events : Option (List EpollEvent)) : Except Assertion World := do
  let r ← nested .poll (w.poller.poll w.size w.live events w.channels [])
  .ok { w with
    size := r.1
    channels := r.2.1
    activeChannels := r.2.2
    eventHandling := true
    phase := .iterating r.2.2 }

def setEventHandling (channel : ChannelPtr) (eventHandling : Bool) : Channels :=
  Function.update w.channels channel { w.channels channel with eventHandling := eventHandling }

/-- `Channel::handleEvent` up to the first callback: nothing happens on a tied channel whose
owner is gone. -/
def handleEvent (channel : ChannelPtr) (guard : Bool) (todo : List ChannelPtr) :
    Except Assertion World := do
  check (w.live channel = true) .freed
  if (w.channels channel).tied = true ∧ guard = false then
    .ok { w with phase := .iterating todo }
  else
    .ok { w with
      channels := w.setEventHandling channel true
      phase := .handling todo (w.channels channel).handlers }

/-- The body of the loop over `activeChannels_`. -/
def dispatch (channel : ChannelPtr) (guard : Bool) (todo : List ChannelPtr) :
    Except Assertion World :=
  ({ w with currentActiveChannel := some channel } : World).handleEvent channel guard todo

/-- The end of `handleEventWithGuard`. -/
def handled (todo : List ChannelPtr) : Except Assertion World :=
  match w.currentActiveChannel with
  | none => .error .freed
  | some channel => do
      check (w.live channel = true) .freed
      .ok { w with channels := w.setEventHandling channel false, phase := .iterating todo }

def finish : World :=
  { w with currentActiveChannel := none, eventHandling := false, phase := .functors }

def step : Action → Option (Except Assertion World)
  | .enter => if w.phase = .outside then some (.ok { w with phase := .condition }) else none
  | .leave => if w.phase = .condition then some (.ok { w with phase := .outside }) else none
  | .poll ready fds =>
      if w.phase = .condition then some (w.poll (some (w.poller.report ready fds))) else none
  | .pollError => if w.phase = .condition then some (w.poll none) else none
  | .next guard =>
      match w.phase with
      | .iterating (channel :: todo) => some (w.dispatch channel guard todo)
      | _ => none
  | .callback =>
      match w.phase with
      | .handling todo (_ :: rest) => some (.ok { w with phase := .handling todo rest })
      | _ => none
  | .handled =>
      match w.phase with
      | .handling todo [] => some (w.handled todo)
      | _ => none
  | .finish => if w.phase = .iterating [] then some (.ok w.finish) else none
  | .again => if w.phase = .functors then some (.ok { w with phase := .condition }) else none
  | .user op => if w.phase.userCode = true then w.perform op else none

end World

def runs : System World Action Assertion where
  init w := w = World.new
  step := World.step

/-- `epoll_wait` answers within what it promises. -/
def Polls (w : World) : Action → Prop
  | .poll ready fds => w.poller.WaitResult w.size ready fds
  | _ => True

/-! ## The channels of the poller -/

/-- The poller's record of the channels that exist: the registered ones are those that are
marked as added, and their objects are there. -/
structure Registry (p : EPollPoller) (h : Channels) (live : ChannelPtr → Bool) : Prop where
  wf : p.WF h
  logged : p.logged = 0
  object : ∀ fd a, p.channels.lookup fd = some a → live a = true
  new : ∀ a, live a = true → p.channels.lookup (h a).fd ≠ some a → (h a).index = kNew
  added : ∀ a, live a = true →
    ((h a).addedToLoop = true ↔ p.channels.lookup (h a).fd = some a)

variable {p p' : EPollPoller} {h h' : Channels} {live : ChannelPtr → Bool} {channel : ChannelPtr}

theorem registry_start : Registry EPollPoller.new h fun _ => false where
  wf := EPollPoller.new_wf h
  logged := rfl
  object := by
    intro fd a ha
    cases ha
  new := by
    intro a ha
    cases ha
  added := by
    intro a ha
    cases ha

/-- The objects are the same, except for what the record says nothing about. -/
def Same (c c' : Channel) : Prop :=
  c'.fd = c.fd ∧ c'.index = c.index ∧ c'.events = c.events ∧ c'.addedToLoop = c.addedToLoop

theorem Registry.congr (hr : Registry p h live) (hs : ∀ a, Same (h a) (h' a)) :
    Registry p h' live where
  wf := hr.wf.agrees fun a => ⟨(hs a).1, (hs a).2.1, (hs a).2.2.1⟩
  logged := hr.logged
  object := hr.object
  new := by
    intro a ha hreg
    obtain ⟨hfd, hidx, -⟩ := hs a
    rw [hfd] at hreg
    rw [hidx]
    exact hr.new a ha hreg
  added := by
    intro a ha
    obtain ⟨hfd, -, -, hadded⟩ := hs a
    rw [hfd, hadded]
    exact hr.added a ha

/-- An object that changes where the record says nothing about it. -/
theorem same_update {c : Channel} (hs : Same (h channel) c) (a : ChannelPtr) :
    Same (h a) (Function.update h channel c a) := by
  by_cases ha : a = channel
  · subst ha
    rw [Function.update_self]
    exact hs
  · rw [Function.update_of_ne ha]
    exact ⟨rfl, rfl, rfl, rfl⟩

/-- At most one channel is registered for a descriptor. -/
theorem Registry.ne (hr : Registry p h live) (hlive : live channel = false) {fd : Nat}
    {a : ChannelPtr} (ha : p.channels.lookup fd = some a) : a ≠ channel := by
  intro heq
  rw [heq] at ha
  rw [hr.object fd channel ha] at hlive
  cases hlive

/-- A new object at a free address. -/
theorem Registry.construct (hr : Registry p h live) (hfree : live channel = false) (fd : Nat) :
    Registry p (Function.update h channel (Channel.new fd))
      (Function.update live channel true) := by
  set h' := Function.update h channel (Channel.new fd) with hh'
  have hself : h' channel = Channel.new fd := Function.update_self ..
  have hothers : ∀ a, a ≠ channel → h' a = h a := fun a ha => Function.update_of_ne ha ..
  have hunregistered : p.channels.lookup fd ≠ some channel := fun ha => hr.ne hfree ha rfl
  refine { wf := ?_, logged := hr.logged, object := ?_, new := ?_, added := ?_ }
  · -- only registered channels matter
    refine { fd := ?_, index := ?_, added := ?_, deleted := ?_,
             unregistered := hr.wf.unregistered }
    all_goals
      intro fd a ha
      rw [hothers a (hr.ne hfree ha)]
    · exact hr.wf.fd fd a ha
    · exact hr.wf.index fd a ha
    · exact hr.wf.added fd a ha
    · exact hr.wf.deleted fd a ha
  · intro fd a ha
    rw [Function.update_of_ne (hr.ne hfree ha)]
    exact hr.object fd a ha
  · intro a ha hreg
    by_cases hc : a = channel
    · rw [hc, hself]
      rfl
    · rw [hothers a hc] at hreg ⊢
      rw [Function.update_of_ne hc] at ha
      exact hr.new a ha hreg
  · intro a ha
    by_cases hc : a = channel
    · rw [hc, hself]
      exact ⟨fun hadd => (by cases hadd), fun hreg => absurd hreg hunregistered⟩
    · rw [hothers a hc]
      rw [Function.update_of_ne hc] at ha
      exact hr.added a ha

/-- The object of a channel that is not registered goes away. -/
theorem Registry.destroy (hr : Registry p h live)
    (hreg : p.channels.lookup (h channel).fd ≠ some channel) :
    Registry p h (Function.update live channel false) := by
  have hne : ∀ fd a, p.channels.lookup fd = some a → a ≠ channel := by
    rintro fd a ha rfl
    rw [← hr.wf.fd fd a ha] at ha
    exact hreg ha
  have hold : ∀ a, Function.update live channel false a = true → live a = true := by
    intro a ha
    by_cases hc : a = channel
    · rw [hc, Function.update_self] at ha
      cases ha
    · rw [Function.update_of_ne hc] at ha
      exact ha
  exact {
    wf := hr.wf
    logged := hr.logged
    object := fun fd a ha => by
      rw [Function.update_of_ne (hne fd a ha)]
      exact hr.object fd a ha
    new := fun a ha => hr.new a (hold a ha)
    added := fun a ha => hr.added a (hold a ha) }

/-- No other channel is registered for the descriptor of `channel`. -/
def Own (p : EPollPoller) (h : Channels) (channel : ChannelPtr) : Prop :=
  ∀ b, p.channels.lookup (h channel).fd = some b → b = channel

theorem Registry.canUpdate (hr : Registry p h live) (ha : live channel = true)
    (hown : Own p h channel) : p.CanUpdate h channel := by
  by_cases hnone : p.channels.lookup (h channel).fd = none
  · refine Or.inl ⟨hnone, hr.new channel ha ?_⟩
    rw [hnone]
    exact nofun
  · obtain ⟨b, hb⟩ := Option.ne_none_iff_exists'.mp hnone
    have hsame := hown b hb
    subst hsame
    exact Or.inr hb

theorem apply_addedToLoop (u : Update) (c : Channel) : (u.apply c).addedToLoop = true := by
  cases u <;> rfl

/-- A change of what a channel watches: it is registered behind it. -/
theorem Registry.update (hr : Registry p h live) (ha : live channel = true)
    (hown : Own p h channel) (u : Update) :
    ∃ p' c, p.updateChannel channel (Function.update h channel (u.apply (h channel))) =
        .ok (p', Function.update h channel c) ∧
      Registry p' (Function.update h channel c) live ∧ c.fd = (h channel).fd ∧
      c.eventHandling = (h channel).eventHandling ∧
      ∀ fd, p'.channels.lookup fd =
        if fd = (h channel).fd then some channel else p.channels.lookup fd := by
  have hfd := ChannelOps.apply_fd u (h channel)
  obtain ⟨p', hok, hlookup, hinterest, hlogged⟩ := EPollPoller.updateChannel_eq hr.wf
    (hr.canUpdate ha hown) hfd (ChannelOps.apply_index u (h channel))
  have hwf := hr.wf.updated hfd hlookup hinterest
  set c : Channel := { u.apply (h channel) with
    index := EPollPoller.indexAfter (u.apply (h channel)) } with hc
  have hself : Function.update h channel c channel = c := Function.update_self ..
  have hothers : ∀ a, a ≠ channel → Function.update h channel c a = h a :=
    fun a ha => Function.update_of_ne ha ..
  rw [hfd] at hlookup
  -- a channel is registered behind the update if it is `channel`, or was registered before
  have hreg : ∀ a, p'.channels.lookup (Function.update h channel c a).fd = some a ↔
      a = channel ∨ p.channels.lookup (h a).fd = some a := by
    intro a
    by_cases hcase : a = channel
    · subst hcase
      rw [hself, hlookup, if_pos hfd]
      simp
    · rw [hothers a hcase, hlookup]
      by_cases hsame : (h a).fd = (h channel).fd
      · rw [if_pos hsame]
        constructor
        · intro heq
          exact absurd (Option.some.inj heq).symm hcase
        · rintro (heq | hlook)
          · exact absurd heq hcase
          · rw [hsame] at hlook
            exact absurd (hown a hlook) hcase
      · rw [if_neg hsame]
        simp [hcase]
  have heh : c.eventHandling = (h channel).eventHandling := by
    cases u <;> rfl
  refine ⟨p', c, hok, ⟨hwf, hlogged.trans hr.logged, ?_, ?_, ?_⟩, hfd, heh, hlookup⟩
  · intro fd a hlook
    rw [hlookup] at hlook
    by_cases hcase : fd = (h channel).fd
    · rw [if_pos hcase, Option.some.injEq] at hlook
      rw [← hlook]
      exact ha
    · rw [if_neg hcase] at hlook
      exact hr.object fd a hlook
  · intro a halive hnot
    rw [Ne, hreg, not_or] at hnot
    rw [hothers a hnot.1]
    exact hr.new a halive hnot.2
  · intro a halive
    rw [hreg]
    by_cases hcase : a = channel
    · subst hcase
      rw [hself]
      simp [hc, apply_addedToLoop]
    · rw [hothers a hcase, hr.added a halive]
      simp [hcase]

/-- Another channel is registered for the descriptor: the assertion for a new channel fails. -/
theorem Registry.update_error (hr : Registry p h live) (ha : live channel = true)
    (hown : ¬ Own p h channel) (u : Update) :
    p.updateChannel channel (Function.update h channel (u.apply (h channel))) =
      .error .unregistered := by
  simp only [Own, not_forall] at hown
  obtain ⟨b, hb, hne⟩ := hown
  have hnew : (h channel).index = kNew := by
    apply hr.new channel ha
    rw [hb]
    intro heq
    exact hne (Option.some.inj heq)
  have hidx : (u.apply (h channel)).index = kNew := by
    rw [ChannelOps.apply_index, hnew]
  have hnot : ¬ p.channels.lookup
      (Function.update h channel (u.apply (h channel)) channel).fd = none := by
    rw [Function.update_self, ChannelOps.apply_fd, hb]
    exact nofun
  unfold EPollPoller.updateChannel
  simp only [Function.update_self]
  rw [if_pos (Or.inl hidx), if_pos hidx, check_error hnot]
  rfl

/-- `remove()` on a registered channel without events. -/
theorem Registry.remove (hr : Registry p h live)
    (hreg : p.channels.lookup (h channel).fd = some channel)
    (hnone : (h channel).isNoneEvent = true) :
    ∃ p' c, p.removeChannel channel
        (Function.update h channel { h channel with addedToLoop := false }) =
        .ok (p', Function.update h channel c) ∧
      Registry p' (Function.update h channel c) live ∧ c.fd = (h channel).fd ∧
      c.eventHandling = (h channel).eventHandling ∧
      ∀ fd, p'.channels.lookup fd =
        if fd = (h channel).fd then none else p.channels.lookup fd := by
  have hagrees := ChannelOps.agrees_clearAdded h channel
  obtain ⟨hfd, -, hevents⟩ := hagrees channel
  have hcan : p.CanRemove (Function.update h channel
      { h channel with addedToLoop := false }) channel := by
    refine ⟨?_, ?_⟩
    · rw [hfd]
      exact hreg
    · rw [Channel.isNoneEvent, hevents]
      exact hnone
  obtain ⟨p', hok, hlookup, hinterest, hlogged⟩ :=
    EPollPoller.removeChannel_eq (hr.wf.agrees hagrees) hcan
  have hwf := (hr.wf.agrees hagrees).removed hlookup hinterest
  set c : Channel := { h channel with addedToLoop := false, index := kNew } with hc
  have hset : Poller.setIndex (Function.update h channel
      { h channel with addedToLoop := false }) channel kNew = Function.update h channel c := by
    rw [Poller.setIndex, Function.update_self]
    exact Function.update_idem ..
  have hself : Function.update h channel c channel = c := Function.update_self ..
  have hothers : ∀ a, a ≠ channel → Function.update h channel c a = h a :=
    fun a ha => Function.update_of_ne ha ..
  rw [hset] at hok hwf
  rw [hfd] at hlookup
  -- the descriptor was that of `channel` alone
  have hkept : ∀ a, a ≠ channel → (p'.channels.lookup (h a).fd = some a ↔
      p.channels.lookup (h a).fd = some a) := by
    intro a hcase
    rw [hlookup]
    by_cases hsame : (h a).fd = (h channel).fd
    · rw [if_pos hsame, hsame, hreg]
      simp [Ne.symm hcase]
    · rw [if_neg hsame]
  refine ⟨p', c, hok, ⟨hwf, hlogged.trans hr.logged, ?_, ?_, ?_⟩, rfl, rfl, hlookup⟩
  · intro fd a hlook
    rw [hlookup] at hlook
    by_cases hcase : fd = (h channel).fd
    · rw [if_pos hcase] at hlook
      cases hlook
    · rw [if_neg hcase] at hlook
      exact hr.object fd a hlook
  · intro a halive hnot
    by_cases hcase : a = channel
    · rw [hcase, hself]
    · rw [hothers a hcase] at hnot ⊢
      rw [Ne, hkept a hcase] at hnot
      exact hr.new a halive hnot
  · intro a halive
    by_cases hcase : a = channel
    · subst hcase
      rw [hself, hlookup, if_pos rfl]
      simp [hc]
    · rw [hothers a hcase, hkept a hcase]
      exact hr.added a halive

end Zing.Net.EventDispatch
