import Zing.Net.EventDispatch

set_option autoImplicit false

/-! # Safe dispatch

`poll` leaves raw pointers in `activeChannels_`, and the handlers of one channel may do anything
to the others before `loop` comes to them. `dispatch_safe` says that the assertions of
`EventLoop::removeChannel` and `~Channel` are enough to keep all these pointers good, and
`user_succeeds_iff` what they leave to the user.
-/

namespace Zing.Net.EventDispatch

open Zing.Lib
open ChannelOps (Update)

variable {p' : EPollPoller} {h' : Channels} {live : ChannelPtr → Bool} {channel : ChannelPtr}

/-! ## The invariant

`EventLoop::removeChannel` lets an active channel go only from its own handler, and `~Channel`
only a channel that is off the loop and not in its handler. The invariant is what follows from
the two: no channel that still waits for its turn can be gone.
-/

/-- The channel whose callbacks are being called. -/
def World.inHandler (w : World) : Option ChannelPtr :=
  match w.phase with
  | .handling _ _ => w.currentActiveChannel
  | _ => none

/-- The members that `removeChannel` looks at, as `loop` leaves them in each phase. -/
def Placed (w : World) : Prop :=
  match w.phase with
  | .iterating todo => w.eventHandling = true ∧ ∃ before, w.activeChannels = before ++ todo
  | .handling todo _ => w.eventHandling = true ∧ ∃ before c,
      w.currentActiveChannel = some c ∧ w.live c = true ∧ w.activeChannels = before ++ c :: todo
  | _ => w.eventHandling = false

/-- The poller has live channels only, and each under its descriptor. What `loop` still has to
dispatch is registered, comes once, and is the rest of `activeChannels_`. `eventHandling_` of a
live channel is set exactly while the thread is in its handler. -/
structure Inv (w : World) : Prop where
  registry : Registry w.poller w.channels w.live
  size : 0 < w.size
  nodup : w.activeChannels.Nodup
  placed : Placed w
  todo : ∀ a ∈ w.phase.todo, w.poller.channels.lookup (w.channels a).fd = some a
  handling : ∀ a, w.live a = true →
    ((w.channels a).eventHandling = true ↔ w.inHandler = some a)

variable {w w' : World}

theorem inv_new : Inv World.new where
  registry := registry_start
  size := by decide
  nodup := List.nodup_nil
  placed := rfl
  todo := by
    intro a ha
    cases ha
  handling := by
    intro a ha
    cases ha

/-- The channel in whose handler the thread is exists, and does not come again. -/
theorem Inv.current (hw : Inv w) {c : ChannelPtr} (hc : w.inHandler = some c) :
    w.live c = true ∧ w.currentActiveChannel = some c ∧ w.eventHandling = true ∧
      ∃ before, w.activeChannels = before ++ c :: w.phase.todo := by
  have hplaced := hw.placed
  unfold Placed at hplaced
  unfold World.inHandler at hc
  cases hphase : w.phase with
  | handling todo rest =>
      rw [hphase] at hplaced hc
      obtain ⟨heh, before, c', hcur, hlive, hactive⟩ := hplaced
      rw [hcur, Option.some.injEq] at hc
      subst hc
      exact ⟨hlive, hcur, heh, before, hactive⟩
  | _ =>
      rw [hphase] at hc
      cases hc

/-- Code of the user changes objects, and the poller's record with them. -/
theorem Inv.changed (hw : Inv w) (hr : Registry p' h' live)
    (htodo : ∀ a ∈ w.phase.todo, p'.channels.lookup (h' a).fd = some a)
    (hcurrent : ∀ c, w.inHandler = some c → live c = true)
    (hhandling : ∀ a, live a = true →
      ((h' a).eventHandling = true ↔ w.inHandler = some a)) :
    Inv { w with poller := p', channels := h', live := live } where
  registry := hr
  size := hw.size
  nodup := hw.nodup
  placed := by
    have hplaced := hw.placed
    unfold Placed at hplaced ⊢
    simp only
    cases hphase : w.phase with
    | handling todo rest =>
        rw [hphase] at hplaced
        obtain ⟨heh, before, c, hcur, -, hactive⟩ := hplaced
        refine ⟨heh, before, c, hcur, hcurrent c ?_, hactive⟩
        rw [World.inHandler, hphase]
        exact hcur
    | _ =>
        rw [hphase] at hplaced
        exact hplaced
  todo := htodo
  handling := hhandling

/-- What the user may do: construct a channel at a free address; change a channel that exists,
if no other is registered for its descriptor; remove it, if it is registered, watches nothing
and is not among the active ones, unless it is the current one; and destroy it, if it is not
registered and is not in its own handler. -/
def Allowed (w : World) : UserOp → Prop
  | .construct channel _ => w.live channel = false
  | .destroy channel => w.live channel = true ∧ w.inHandler ≠ some channel ∧
      w.hasChannel channel = false
  | .tie channel => w.live channel = true
  | .update _ channel => w.live channel = true ∧ Own w.poller w.channels channel
  | .remove channel => w.live channel = true ∧ (w.channels channel).isNoneEvent = true ∧
      w.hasChannel channel = true ∧
      (w.eventHandling = true → channel ∈ w.activeChannels → w.inHandler = some channel)

/-- `hasChannel` finds the channel itself under its descriptor. -/
theorem hasChannel_iff {a : ChannelPtr} : w.hasChannel a = true ↔
    w.poller.channels.lookup (w.channels a).fd = some a := by
  rw [World.hasChannel, decide_eq_true_iff]

theorem hasChannel_eq_false_iff {a : ChannelPtr} : w.hasChannel a = false ↔
    w.poller.channels.lookup (w.channels a).fd ≠ some a := by
  rw [World.hasChannel, decide_eq_false_iff_not]

/-- `addedToLoop_` of a live channel is what the poller would say. -/
theorem Inv.added_iff (hw : Inv w) {a : ChannelPtr} (ha : w.live a = true) :
    (w.channels a).addedToLoop = w.hasChannel a := by
  rw [Bool.eq_iff_iff, hasChannel_iff]
  exact hw.registry.added a ha

/-! ## The steps of the user

The user's code runs outside of `loop`, in a handler, and in the functors. For each operation the
lemmas say that it succeeds where `Allowed` holds and nowhere else.
-/

/-- A channel that has not had its turn exists. -/
theorem Inv.todo_live (hw : Inv w) {a : ChannelPtr} (ha : a ∈ w.phase.todo) :
    w.live a = true :=
  hw.registry.object _ a (hw.todo a ha)

/-- A new object takes an address that no pointer of the loop leads to. -/
theorem Inv.construct (hw : Inv w) (hfree : w.live channel = false) (fd : Nat) :
    Inv (w.construct channel fd) := by
  have hne : ∀ a, w.live a = true → a ≠ channel := by
    rintro a ha rfl
    rw [hfree] at ha
    cases ha
  apply hw.changed (hw.registry.construct hfree fd)
  · intro a ha
    rw [Function.update_of_ne (hne a (hw.todo_live ha))]
    exact hw.todo a ha
  · intro c hc
    obtain ⟨hlive, -⟩ := hw.current hc
    rw [Function.update_of_ne (hne c hlive)]
    exact hlive
  · intro a ha
    by_cases hcase : a = channel
    · -- a new object, which cannot be the one in whose handler the thread is
      subst hcase
      rw [Function.update_self]
      constructor
      · intro heh
        cases heh
      · intro hin
        exact absurd rfl (hne a (hw.current hin).1)
    · rw [Function.update_of_ne hcase] at ha ⊢
      exact hw.handling a ha

/-- The assertions of `~Channel`. -/
theorem Inv.destroy_eq (hw : Inv w) (hlive : w.live channel = true) {w' : World}
    (hok : w.destroy channel = .ok w') :
    w.inHandler ≠ some channel ∧ w.hasChannel channel = false ∧
      w' = { w with live := Function.update w.live channel false } := by
  obtain ⟨_, heh, hok⟩ := bind_eq_ok.mp hok
  obtain ⟨_, -, hok⟩ := bind_eq_ok.mp hok
  obtain ⟨_, hhas, hok⟩ := bind_eq_ok.mp hok
  rw [check_eq_ok] at heh hhas
  rw [Except.ok.injEq] at hok
  refine ⟨?_, hhas, hok.symm⟩
  rw [Ne, ← hw.handling channel hlive, heh]
  exact Bool.false_ne_true

/-- Outside of its own handler, and off the loop, a channel is deleted without an assertion
failing. -/
theorem Inv.destroy (hw : Inv w) (hlive : w.live channel = true)
    (hin : w.inHandler ≠ some channel) (hhas : w.hasChannel channel = false) :
    w.destroy channel = .ok { w with live := Function.update w.live channel false } ∧
      Inv { w with live := Function.update w.live channel false } := by
  have heh : (w.channels channel).eventHandling = false := by
    rw [Ne, ← hw.handling channel hlive] at hin
    exact Bool.not_eq_true _ |>.mp hin
  have hadded : (w.channels channel).addedToLoop = false := (hw.added_iff hlive).trans hhas
  rw [hasChannel_eq_false_iff] at hhas
  constructor
  · rw [World.destroy, check_bind heh, check_bind hadded,
      check_bind (hasChannel_eq_false_iff.mpr hhas)]
  · apply hw.changed (hw.registry.destroy hhas) hw.todo
    · intro c hc
      have hne : c ≠ channel := by
        rintro rfl
        exact hin hc
      rw [Function.update_of_ne hne]
      exact (hw.current hc).1
    · intro a ha
      by_cases hcase : a = channel
      · rw [hcase, Function.update_self] at ha
        cases ha
      · rw [Function.update_of_ne hcase] at ha
        exact hw.handling a ha

/-- `tie` changes nothing that the poller or the loop reads. -/
theorem Inv.tie (hw : Inv w) : Inv (w.tie channel) := by
  have hsame : ∀ a, Same (w.channels a)
      (Function.update w.channels channel (w.channels channel).tie a) :=
    same_update ⟨rfl, rfl, rfl, rfl⟩
  apply hw.changed (hw.registry.congr hsame)
  · intro a ha
    rw [(hsame a).1]
    exact hw.todo a ha
  · exact fun c hc => (hw.current hc).1
  · intro a ha
    rw [← hw.handling a ha]
    by_cases hcase : a = channel
    · rw [hcase, Function.update_self]
      rfl
    · rw [Function.update_of_ne hcase]

/-- An operation on one channel leaves `eventHandling_` alone. -/
theorem Inv.handling_update (hw : Inv w) {c : Channel}
    (hc : c.eventHandling = (w.channels channel).eventHandling) (a : ChannelPtr)
    (ha : w.live a = true) :
    (Function.update w.channels channel c a).eventHandling = true ↔ w.inHandler = some a := by
  rw [← hw.handling a ha]
  by_cases hcase : a = channel
  · rw [hcase, Function.update_self, hc]
  · rw [Function.update_of_ne hcase]

/-- An update succeeds for a live channel whose descriptor no other channel has in the poller. -/
theorem Inv.update (hw : Inv w) (hlive : w.live channel = true)
    (hown : Own w.poller w.channels channel) (u : Update) :
    ∃ w', w.update u channel = .ok w' ∧ Inv w' := by
  obtain ⟨p', c, hok, hreg, hfd, heh, hlookup⟩ := hw.registry.update hlive hown u
  refine ⟨{ w with poller := p', channels := Function.update w.channels channel c }, ?_, ?_⟩
  · rw [World.update]
    rw [hok]
    rfl
  · apply hw.changed hreg
    · intro a ha
      have hlook := hw.todo a ha
      by_cases hcase : a = channel
      · rw [hcase, Function.update_self, hfd, hlookup, if_pos rfl]
      · rw [Function.update_of_ne hcase, hlookup]
        have hne : (w.channels a).fd ≠ (w.channels channel).fd := by
          intro hsame
          rw [hsame] at hlook
          exact hcase (hown a hlook)
        rw [if_neg hne]
        exact hlook
    · exact fun d hd => (hw.current hd).1
    · exact hw.handling_update heh

/-- And it fails for any other one: a registered channel stands in its way. -/
theorem Inv.update_own (hw : Inv w) (hlive : w.live channel = true) {u : Update} {w' : World}
    (hok : w.update u channel = .ok w') : Own w.poller w.channels channel := by
  by_contra hown
  obtain ⟨r, hr, -⟩ := bind_eq_ok.mp hok
  rw [nested_eq_ok, hw.registry.update_error hlive hown] at hr
  cases hr

/-- An active channel that may be removed is the one in whose handler the thread is. -/
theorem Inv.mayRemove_iff (hw : Inv w) (huser : w.phase.userCode = true) :
    w.mayRemove channel = true ↔
      (w.eventHandling = true → channel ∈ w.activeChannels → w.inHandler = some channel) := by
  have hplaced := hw.placed
  unfold Placed at hplaced
  unfold World.inHandler
  cases hphase : w.phase with
  | handling todo rest =>
      rw [hphase] at hplaced
      simp [World.mayRemove, hplaced.1, or_iff_not_imp_right]
  | condition =>
      rw [hphase] at huser
      cases huser
  | iterating todo =>
      rw [hphase] at huser
      cases huser
  | _ =>
      rw [hphase] at hplaced
      simp only at hplaced
      simp [World.mayRemove, hplaced]

/-- `remove` takes a registered channel that watches nothing and has no turn to come. -/
theorem Inv.remove (hw : Inv w) (hnone : (w.channels channel).isNoneEvent = true)
    (hreg : w.hasChannel channel = true) (hmay : w.mayRemove channel = true)
    (hnotTodo : channel ∉ w.phase.todo) :
    ∃ w', w.remove channel = .ok w' ∧ Inv w' := by
  rw [hasChannel_iff] at hreg
  obtain ⟨p', c, hok, hreg', hfd, heh, hlookup⟩ := hw.registry.remove hreg hnone
  refine ⟨{ w with poller := p', channels := Function.update w.channels channel c }, ?_, ?_⟩
  · rw [World.remove, check_bind hnone]
    simp only
    rw [check_bind hmay, hok]
    rfl
  · apply hw.changed hreg'
    · intro a ha
      have hcase : a ≠ channel := by
        rintro rfl
        exact hnotTodo ha
      have hlook := hw.todo a ha
      have hne : (w.channels a).fd ≠ (w.channels channel).fd := by
        intro hsame
        rw [hsame, hreg, Option.some.injEq] at hlook
        exact hcase hlook.symm
      rw [Function.update_of_ne hcase, hlookup, if_neg hne]
      exact hlook
    · exact fun d hd => (hw.current hd).1
    · exact hw.handling_update heh

/-- The three assertions that a removal has passed. -/
theorem remove_eq_ok (hok : w.remove channel = .ok w') :
    (w.channels channel).isNoneEvent = true ∧ w.mayRemove channel = true ∧
      w.hasChannel channel = true := by
  obtain ⟨_, hnone, hok⟩ := bind_eq_ok.mp hok
  obtain ⟨_, hmay, hok⟩ := bind_eq_ok.mp hok
  obtain ⟨r, hr, -⟩ := bind_eq_ok.mp hok
  rw [nested_eq_ok] at hr
  have hreg := (EPollPoller.canRemove_of_ok hr).1
  rw [(ChannelOps.agrees_clearAdded w.channels channel channel).1] at hreg
  exact ⟨check_eq_ok.mp hnone, check_eq_ok.mp hmay, hasChannel_iff.mpr hreg⟩

/-- A channel that may be removed is not waiting for its turn. -/
theorem Inv.not_todo (hw : Inv w) (huser : w.phase.userCode = true)
    (hmay : w.eventHandling = true → channel ∈ w.activeChannels →
      w.inHandler = some channel) : channel ∉ w.phase.todo := by
  intro hmem
  cases hphase : w.phase with
  | handling todo rest =>
      have hplaced := hw.placed
      unfold Placed at hplaced
      rw [hphase] at hplaced hmem
      obtain ⟨heh, before, c, hcur, -, hactive⟩ := hplaced
      have hmem : channel ∈ todo := hmem
      have hin : channel ∈ w.activeChannels := by
        rw [hactive]
        exact List.mem_append_right _ (List.mem_cons_of_mem _ hmem)
      have hsame := hmay heh hin
      rw [World.inHandler, hphase] at hsame
      simp only at hsame
      rw [hcur, Option.some.injEq] at hsame
      -- the current channel would be active twice
      have hnodup := hw.nodup
      rw [hactive, hsame] at hnodup
      exact (List.nodup_cons.mp (List.nodup_append.mp hnodup).2.1).1 hmem
  | iterating todo =>
      rw [hphase] at huser
      cases huser
  | _ =>
      rw [hphase] at hmem
      cases hmem

/-- What is allowed succeeds. -/
theorem Inv.perform (hw : Inv w) (huser : w.phase.userCode = true) {op : UserOp}
    (hop : Allowed w op) : ∃ w', w.perform op = some (.ok w') ∧ Inv w' := by
  cases op with
  | construct channel fd => exact ⟨_, if_pos hop, hw.construct hop fd⟩
  | destroy channel =>
      obtain ⟨hlive, hin, hhas⟩ := hop
      obtain ⟨hok, hinv⟩ := hw.destroy hlive hin hhas
      refine ⟨_, ?_, hinv⟩
      rw [World.perform, if_pos hlive, hok]
  | tie channel => exact ⟨_, if_pos hop, hw.tie⟩
  | update u channel =>
      obtain ⟨hlive, hown⟩ := hop
      obtain ⟨w', hok, hinv⟩ := hw.update hlive hown u
      refine ⟨w', ?_, hinv⟩
      rw [World.perform, if_pos hlive, hok]
  | remove channel =>
      obtain ⟨hlive, hnone, hreg, hmay⟩ := hop
      obtain ⟨w', hok, hinv⟩ := hw.remove hnone hreg ((hw.mayRemove_iff huser).mpr hmay)
        (hw.not_todo huser hmay)
      refine ⟨w', ?_, hinv⟩
      rw [World.perform, if_pos hlive, hok]

/-- What succeeds is allowed. -/
theorem Inv.allowed (hw : Inv w) (huser : w.phase.userCode = true) {op : UserOp}
    (hok : w.perform op = some (.ok w')) : Allowed w op := by
  cases op with
  | construct channel fd => exact (of_guard hok).1
  | destroy channel =>
      obtain ⟨hlive, hok⟩ := of_guard hok
      obtain ⟨hin, hhas, -⟩ := hw.destroy_eq hlive hok
      exact ⟨hlive, hin, hhas⟩
  | tie channel => exact (of_guard hok).1
  | update u channel =>
      obtain ⟨hlive, hok⟩ := of_guard hok
      exact ⟨hlive, hw.update_own hlive hok⟩
  | remove channel =>
      obtain ⟨hlive, hok⟩ := of_guard hok
      obtain ⟨hnone, hmay, hreg⟩ := remove_eq_ok hok
      exact ⟨hlive, hnone, hreg, (hw.mayRemove_iff huser).mp hmay⟩

/-! ## The steps of the loop

None of these has an assertion that can fail.
-/

/-- Outside of a handler no channel is being handled. -/
theorem Inv.not_handling (hw : Inv w) (hin : w.inHandler = none) {a : ChannelPtr}
    (ha : w.live a = true) : (w.channels a).eventHandling = false := by
  rw [← Bool.not_eq_true, hw.handling a ha, hin]
  exact nofun

/-- The channels of the poller are active behind a poll. -/
theorem Inv.poll (hw : Inv w) (hphase : w.phase = .condition) {ready : Nat → Events}
    {fds : List Nat} (hres : w.poller.WaitResult w.size ready fds) :
    ∃ w', w.poll (some (w.poller.report ready fds)) = .ok w' ∧ Inv w' ∧
      w'.size = EPollPoller.sizeAfter w.size fds.length ∧
      w.poller.Active ready fds w.channels w'.channels w'.activeChannels := by
  obtain ⟨h', active, hok, hactive⟩ :=
    hw.registry.wf.poll hw.size hres _ hw.registry.object
  have hin : w.inHandler = none := by rw [World.inHandler, hphase]
  have hsame : ∀ a, Same (w.channels a) (h' a) ∧
      (h' a).eventHandling = (w.channels a).eventHandling := by
    intro a
    by_cases ha : a ∈ active
    · rw [hactive.revents a ha]
      exact ⟨⟨rfl, rfl, rfl, rfl⟩, rfl⟩
    · rw [hactive.others a ha]
      exact ⟨⟨rfl, rfl, rfl, rfl⟩, rfl⟩
  refine ⟨{ w with
    size := EPollPoller.sizeAfter w.size fds.length
    channels := h'
    activeChannels := active
    eventHandling := true
    phase := .iterating active }, ?_, ?_, rfl, hactive⟩
  · rw [World.poll, hok]
    rfl
  · refine { registry := hw.registry.congr fun a => (hsame a).1, size := ?_,
             nodup := hactive.nodup, placed := ⟨rfl, [], rfl⟩, todo := ?_, handling := ?_ }
    · show 0 < EPollPoller.sizeAfter w.size fds.length
      have := hw.size
      unfold EPollPoller.sizeAfter
      split <;> omega
    · intro a ha
      obtain ⟨fd, -, hreg⟩ := (hactive.mem a).mp ha
      show w.poller.channels.lookup (h' a).fd = some a
      rw [(hsame a).1.1, hw.registry.wf.fd fd a hreg]
      exact hreg
    · intro a ha
      show (h' a).eventHandling = true ↔ none = some a
      rw [(hsame a).2, hw.not_handling hin ha]
      simp

/-- A poll that fails leaves nothing to dispatch. -/
theorem Inv.pollError (hw : Inv w) (hphase : w.phase = .condition) :
    ∃ w', w.poll none = .ok w' ∧ Inv w' := by
  have hin : w.inHandler = none := by rw [World.inHandler, hphase]
  refine ⟨_, rfl, hw.registry, hw.size, List.nodup_nil, ⟨rfl, [], rfl⟩, ?_, ?_⟩
  · intro a ha
    cases ha
  · intro a ha
    show (w.channels a).eventHandling = true ↔ none = some a
    rw [hw.not_handling hin ha]
    simp

/-- A change of `eventHandling_` alone. -/
theorem same_setEventHandling (w : World) (channel : ChannelPtr) (eh : Bool) (a : ChannelPtr) :
    Same (w.channels a) (w.setEventHandling channel eh a) :=
  same_update (by exact ⟨rfl, rfl, rfl, rfl⟩) a

/-- `eventHandling_` of the one channel is set, and no other. -/
theorem setEventHandling_iff (w : World) (channel : ChannelPtr) (eh : Bool) (a : ChannelPtr) :
    (w.setEventHandling channel eh a).eventHandling =
      if a = channel then eh else (w.channels a).eventHandling := by
  by_cases hcase : a = channel
  · rw [if_pos hcase, hcase, World.setEventHandling, Function.update_self]
  · rw [if_neg hcase, World.setEventHandling, Function.update_of_ne hcase]

/-- The next active channel exists, so its `handleEvent` can be called. -/
theorem Inv.dispatch (hw : Inv w) {todo : List ChannelPtr}
    (hphase : w.phase = .iterating (channel :: todo)) (guard : Bool) :
    ∃ w', w.dispatch channel guard todo = .ok w' ∧ Inv w' := by
  have hplaced := hw.placed
  unfold Placed at hplaced
  rw [hphase] at hplaced
  obtain ⟨heh, before, hactive⟩ := hplaced
  have hin : w.inHandler = none := by rw [World.inHandler, hphase]
  have hlive : w.live channel = true := by
    apply hw.todo_live
    rw [hphase]
    exact List.mem_cons_self
  have htodo : ∀ a ∈ todo, w.poller.channels.lookup (w.channels a).fd = some a := by
    intro a ha
    apply hw.todo a
    rw [hphase]
    exact List.mem_cons_of_mem _ ha
  rw [World.dispatch, World.handleEvent, check_bind hlive]
  by_cases hskip : (w.channels channel).tied = true ∧ guard = false
  · rw [if_pos hskip]
    refine ⟨_, rfl, hw.registry, hw.size, hw.nodup, ⟨heh, before ++ [channel], ?_⟩, htodo, ?_⟩
    · rw [List.append_assoc, List.singleton_append]
      exact hactive
    · intro a ha
      show (w.channels a).eventHandling = true ↔ none = some a
      rw [hw.not_handling hin ha]
      simp
  · rw [if_neg hskip]
    have hsame := same_setEventHandling { w with currentActiveChannel := some channel } channel true
    refine ⟨_, rfl, hw.registry.congr hsame, hw.size, hw.nodup,
      ⟨heh, before, channel, rfl, hlive, hactive⟩, ?_, ?_⟩
    · intro a ha
      show w.poller.channels.lookup (World.setEventHandling _ channel true a).fd = some a
      rw [(hsame a).1]
      exact htodo a ha
    · intro a ha
      have ha : w.live a = true := ha
      show (World.setEventHandling _ channel true a).eventHandling = true ↔ some channel = some a
      rw [setEventHandling_iff, hw.not_handling hin ha]
      simp [eq_comm]

/-- The end of a handler: its channel is still there. -/
theorem Inv.handled (hw : Inv w) {todo : List ChannelPtr}
    (hphase : w.phase = .handling todo []) : ∃ w', w.handled todo = .ok w' ∧ Inv w' := by
  have hplaced := hw.placed
  unfold Placed at hplaced
  rw [hphase] at hplaced
  obtain ⟨heh, before, c, hcur, hlive, hactive⟩ := hplaced
  have hin : w.inHandler = some c := by
    rw [World.inHandler, hphase]
    exact hcur
  have hsame := same_setEventHandling w c false
  refine ⟨{ w with channels := w.setEventHandling c false, phase := .iterating todo }, ?_,
    hw.registry.congr hsame, hw.size, hw.nodup, ⟨heh, before ++ [c], ?_⟩, ?_, ?_⟩
  · rw [World.handled, hcur]
    simp only
    rw [check_bind hlive]
  · rw [List.append_assoc, List.singleton_append]
    exact hactive
  · intro a ha
    show w.poller.channels.lookup (w.setEventHandling c false a).fd = some a
    rw [(hsame a).1]
    apply hw.todo a
    rw [hphase]
    exact ha
  · intro a ha
    have ha : w.live a = true := ha
    show (w.setEventHandling c false a).eventHandling = true ↔ none = some a
    rw [setEventHandling_iff]
    have hiff := hw.handling a ha
    rw [hin] at hiff
    by_cases hcase : a = c
    · simp [hcase]
    · rw [if_neg hcase, hiff]
      simp [Ne.symm hcase]

/-- The next callback of the same channel. -/
theorem Inv.callback (hw : Inv w) {todo : List ChannelPtr} {handler : Channel.Handler}
    {rest : List Channel.Handler} (hphase : w.phase = .handling todo (handler :: rest)) :
    Inv { w with phase := .handling todo rest } := by
  have hplaced := hw.placed
  unfold Placed at hplaced
  rw [hphase] at hplaced
  refine ⟨hw.registry, hw.size, hw.nodup, hplaced, ?_, ?_⟩
  · intro a ha
    apply hw.todo a
    rw [hphase]
    exact ha
  · intro a ha
    rw [hw.handling a ha, World.inHandler, hphase]
    rfl

/-- A step between two phases without active channels. -/
theorem Inv.goto (hw : Inv w) (hin : w.inHandler = none) {phase : Phase}
    (current : Option ChannelPtr)
    (hplain : phase = .outside ∨ phase = .condition ∨ phase = .functors) :
    Inv { w with currentActiveChannel := current, eventHandling := false, phase := phase } := by
  have hnone : World.inHandler
      { w with currentActiveChannel := current, eventHandling := false, phase := phase } =
      none := by
    rcases hplain with rfl | rfl | rfl <;> rfl
  refine ⟨hw.registry, hw.size, hw.nodup, ?_, ?_, ?_⟩
  · rcases hplain with rfl | rfl | rfl <;> rfl
  · intro a ha
    rcases hplain with rfl | rfl | rfl <;> cases ha
  · intro a ha
    rw [hnone, ← hin]
    exact hw.handling a ha

/-- In these phases no channel is current, and `loop` is not handling events. -/
theorem Inv.plain (hw : Inv w)
    (hplain : w.phase = .outside ∨ w.phase = .condition ∨ w.phase = .functors) :
    w.inHandler = none ∧ w.eventHandling = false := by
  have hplaced := hw.placed
  unfold Placed at hplaced
  rw [World.inHandler]
  rcases hplain with hphase | hphase | hphase
  all_goals
    rw [hphase] at hplaced ⊢
    exact ⟨rfl, hplaced⟩

/-- How a step ends: only what the user does may fail. -/
theorem Inv.step (hw : Inv w) {a : Action} (hp : Polls w a) {r : Except Assertion World}
    (hr : w.step a = some r) : Ends Inv (fun _ => ∃ op, a = .user op) r := by
  cases a with
  | enter =>
      obtain ⟨hphase, rfl⟩ := of_guard hr
      obtain ⟨hin, heh⟩ := hw.plain (Or.inl hphase)
      have hgoto := hw.goto hin w.currentActiveChannel (Or.inr (Or.inl rfl))
      rw [← heh] at hgoto
      exact hgoto
  | leave =>
      obtain ⟨hphase, rfl⟩ := of_guard hr
      obtain ⟨hin, heh⟩ := hw.plain (Or.inr (Or.inl hphase))
      have hgoto := hw.goto hin w.currentActiveChannel (Or.inl rfl)
      rw [← heh] at hgoto
      exact hgoto
  | poll ready fds =>
      obtain ⟨hphase, rfl⟩ := of_guard hr
      obtain ⟨w', hok, hinv, -⟩ := hw.poll hphase hp
      rw [hok]
      exact hinv
  | pollError =>
      obtain ⟨hphase, rfl⟩ := of_guard hr
      obtain ⟨w', hok, hinv⟩ := hw.pollError hphase
      rw [hok]
      exact hinv
  | next guard =>
      rw [World.step] at hr
      split at hr
      · case h_1 channel todo hphase =>
          obtain rfl := Option.some.inj hr
          obtain ⟨w', hok, hinv⟩ := hw.dispatch hphase guard
          rw [hok]
          exact hinv
      · cases hr
  | callback =>
      rw [World.step] at hr
      split at hr
      · case h_1 todo handler rest hphase =>
          obtain rfl := Option.some.inj hr
          exact hw.callback hphase
      · cases hr
  | handled =>
      rw [World.step] at hr
      split at hr
      · case h_1 todo hphase =>
          obtain rfl := Option.some.inj hr
          obtain ⟨w', hok, hinv⟩ := hw.handled hphase
          rw [hok]
          exact hinv
      · cases hr
  | finish =>
      obtain ⟨hphase, rfl⟩ := of_guard hr
      have hin : w.inHandler = none := by rw [World.inHandler, hphase]
      exact hw.goto hin none (Or.inr (Or.inr rfl))
  | again =>
      obtain ⟨hphase, rfl⟩ := of_guard hr
      obtain ⟨hin, heh⟩ := hw.plain (Or.inr (Or.inr hphase))
      have hgoto := hw.goto hin w.currentActiveChannel (Or.inr (Or.inl rfl))
      rw [← heh] at hgoto
      exact hgoto
  | user op =>
      cases r with
      | error e => exact ⟨op, rfl⟩
      | ok w' =>
          obtain ⟨huser, hperform⟩ := of_guard' hr
          obtain ⟨w'', hok, hinv⟩ := hw.perform huser (hw.allowed huser hperform)
          rw [hperform, Option.some.injEq, Except.ok.injEq] at hok
          rw [hok]
          exact hinv

/-- Everything that a run of the loop and of its handlers leads to keeps the invariant, as long as
no assertion fails. -/
theorem reachable_inv (hr : runs.Reachable Polls w) : Inv w := by
  apply hr.invariant
  · rintro _ rfl
    exact inv_new
  · intro w a w' hw hp hn
    exact hw.step hp hn

/-! ## The pointers are good -/

/-- What the raw pointers of the loop, of the poller and of the kernel lead to. -/
structure Safe (w : World) : Prop where
  channels : ∀ fd a, w.poller.channels.lookup fd = some a →
    w.live a = true ∧ (w.channels a).fd = fd
  kernel : ∀ fd mask a, w.poller.interest fd = some (mask, a) →
    w.live a = true ∧ (w.channels a).fd = fd ∧ (w.channels a).events = mask
  todo : ∀ a ∈ w.phase.todo, w.live a = true ∧ w.hasChannel a = true
  current : ∀ c, w.inHandler = some c →
    w.live c = true ∧ c ∈ w.activeChannels ∧ c ∉ w.phase.todo
  once : w.activeChannels.Nodup ∧ w.phase.todo <:+ w.activeChannels

/-- Each pointer is good because what it leads to is registered, and a registered channel exists.
-/
theorem Inv.safe (hw : Inv w) : Safe w where
  channels := fun fd a ha => ⟨hw.registry.object fd a ha, hw.registry.wf.fd fd a ha⟩
  kernel := by
    intro fd mask a hint
    obtain ⟨hreg, hfd, hmask⟩ := hw.registry.wf.entry hint
    exact ⟨hw.registry.object fd a hreg, hfd, hmask⟩
  todo := fun a ha => ⟨hw.todo_live ha, hasChannel_iff.mpr (hw.todo a ha)⟩
  current := by
    intro c hc
    obtain ⟨hlive, -, -, before, hactive⟩ := hw.current hc
    have hnodup := hw.nodup
    rw [hactive] at hnodup ⊢
    refine ⟨hlive, List.mem_append_right _ List.mem_cons_self, ?_⟩
    exact (List.nodup_cons.mp (List.nodup_append.mp hnodup).2.1).1
  once := by
    refine ⟨hw.nodup, ?_⟩
    have hplaced := hw.placed
    unfold Placed at hplaced
    cases hphase : w.phase with
    | iterating todo =>
        rw [hphase] at hplaced
        obtain ⟨-, before, hactive⟩ := hplaced
        exact ⟨before, hactive.symm⟩
    | handling todo rest =>
        rw [hphase] at hplaced
        obtain ⟨-, before, c, -, -, hactive⟩ := hplaced
        refine ⟨before ++ [c], ?_⟩
        rw [List.append_assoc, List.singleton_append]
        exact hactive.symm
    | _ => exact List.nil_suffix

/-- The interest list with two entries. -/
theorem waitResult_sample {p : EPollPoller} {e₁ e₂ : Events × ChannelPtr}
    (hint : p.interest = Function.update (Function.update (fun _ => none) 5 (some e₁)) 6 (some e₂))
    {ready : Nat → Events} (h₁ : (EPollPoller.reported e₁.1 (ready 5)).nonzero = true)
    (h₂ : (EPollPoller.reported e₂.1 (ready 6)).nonzero = true) :
    p.WaitResult 16 ready [5, 6] where
  fits := by decide
  nodup := by decide
  sound := by
    have hfive : p.interest 5 = some e₁ := by
      rw [hint]
      rfl
    have hsix : p.interest 6 = some e₂ := by
      rw [hint]
      rfl
    intro fd hfd
    simp only [List.mem_cons, List.not_mem_nil, or_false] at hfd
    rcases hfd with rfl | rfl
    · exact EPollPoller.isReady_iff.mpr ⟨e₁.1, e₁.2, hfive, h₁⟩
    · exact EPollPoller.isReady_iff.mpr ⟨e₂.1, e₂.2, hsix, h₂⟩
  complete := by
    intro _ fd hready
    apply EPollPoller.mem_of_isReady _ hready
    intro fd hfd
    simp only [List.mem_cons, List.not_mem_nil, or_false, not_or] at hfd
    rw [hint, Function.update_of_ne hfd.2, Function.update_of_ne hfd.1]

/-- Two channels with data to read are active, and the first is in its handler, watches nothing
any more, and is off the loop. -/
theorem reachable_sample : ∃ w, runs.Reachable Polls w ∧ w.phase = .handling [1] [.read] ∧
    w.hasChannel 0 = false ∧ w.currentActiveChannel = some 0 ∧
    w.activeChannels = [0, 1] ∧ w.eventHandling = true := by
  have h₁ : runs.Run Polls World.new [.user (.construct 0 5)] _ := System.Run.single trivial rfl
  have h₂ := h₁.snoc (a := Action.user (.construct 1 6)) trivial rfl
  have h₃ := h₂.snoc (a := Action.user (.update .enableReading 0)) trivial rfl
  have h₄ := h₃.snoc (a := Action.user (.update .enableReading 1)) trivial rfl
  have h₅ := h₄.snoc (a := Action.enter) trivial rfl
  have h₆ := h₅.snoc (a := Action.poll (fun _ => { pollIn := true }) [5, 6])
    (waitResult_sample rfl rfl rfl) rfl
  have h₇ := h₆.snoc (a := Action.next true) trivial rfl
  have h₈ := h₇.snoc (a := Action.user (.update .disableAll 0)) trivial rfl
  have h₉ := h₈.snoc (a := Action.user (.remove 0)) trivial rfl
  exact ⟨_, ⟨_, _, rfl, h₉⟩, rfl, rfl, rfl, rfl, rfl⟩

/-- Whatever the handlers do to the channels of the loop, as long as no assertion has failed,
every pointer that `loop` still has to follow leads to a channel that exists and is registered,
and no channel comes twice; and `loop`, `poll` and `handleEvent` never fail themselves. -/
theorem dispatch_safe (hr : runs.Reachable Polls w) :
    Safe w ∧ ∀ a e, Polls w a → runs.Fails w a e → ∃ op, a = .user op := by
  have hw := reachable_inv hr
  refine ⟨hw.safe, ?_⟩
  intro a e hp hf
  exact hw.step hp hf

/-- The second channel still has its turn when the first is gone from the loop. -/
theorem dispatch_safe_sample : ∃ w : World, runs.Reachable Polls w ∧
    w.hasChannel 0 = false ∧ w.live 1 = true ∧ w.hasChannel 1 = true := by
  obtain ⟨w, hr, hphase, hgone, -⟩ := reachable_sample
  have hmem : 1 ∈ w.phase.todo := by
    rw [hphase]
    exact List.mem_singleton_self 1
  exact ⟨w, hr, hgone, (dispatch_safe hr).1.todo 1 hmem⟩

/-- In code of the user an operation succeeds exactly where it is allowed. -/
theorem user_succeeds_iff (hr : runs.Reachable Polls w) (huser : w.phase.userCode = true)
    (op : UserOp) : (∃ w', runs.Next w (.user op) w') ↔ Allowed w op := by
  have hw := reachable_inv hr
  have hstep : w.step (.user op) = w.perform op := if_pos huser
  constructor
  · rintro ⟨w', hn⟩
    have hn' : w.step (.user op) = some (.ok w') := hn
    rw [hstep] at hn'
    exact hw.allowed huser hn'
  · intro hop
    obtain ⟨w', hok, -⟩ := hw.perform huser hop
    exact ⟨w', hstep.trans hok⟩

/-- The handler of the first channel can neither remove the second nor destroy its own. -/
theorem user_succeeds_iff_sample : ∃ w : World, runs.Reachable Polls w ∧
    (¬ ∃ w', runs.Next w (.user (.remove 1)) w') ∧
      ¬ ∃ w', runs.Next w (.user (.destroy 0)) w' := by
  obtain ⟨w, hr, hphase, -, hcur, hactive, heh⟩ := reachable_sample
  have huser : w.phase.userCode = true := by
    rw [hphase]
    rfl
  have hin : w.inHandler = some 0 := by
    rw [World.inHandler, hphase]
    exact hcur
  refine ⟨w, hr, ?_, ?_⟩
  · rw [user_succeeds_iff hr huser]
    rintro ⟨-, -, -, hmay⟩
    have hsame := hmay heh (by simp [hactive])
    rw [hin] at hsame
    cases hsame
  · rw [user_succeeds_iff hr huser]
    rintro ⟨-, hnot, -⟩
    exact hnot hin

end Zing.Net.EventDispatch
