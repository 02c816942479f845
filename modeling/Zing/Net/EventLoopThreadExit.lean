import Zing.Net.EventLoopThread

set_option autoImplicit false

/-! # The destruction of a thread with an event loop

`~EventLoopThread` against the end of `threadFunc`. The destructor reads `loop_` without
`mutex_`, once for its test and once more for the call of `quit()`, and it joins the thread
only if the test has found a loop. So `threadFunc` may withdraw the pointer in between, or be
about to unlock a mutex that is destructed with the other members. `tears_down` says exactly
which steps have to stay apart, and `undisturbed_of_alone` that they do if nobody else calls
`quit()`.
-/

namespace Zing.Net.EventLoopThread.Exit

open Zing.Lib
open EventLoop (World)

variable {T F : Type}

/-! ## Steps -/

/-- Where the end of `threadFunc` is. -/
inductive Epilogue
  /-- In front of the lock of `mutex_`. -/
  | before
  /-- In front of `loop_ = nullptr`. -/
  | locked
  /-- In front of the unlock. -/
  | cleared
  /-- In front of `~EventLoop`. -/
  | unlocked
  /-- The lifetime of the loop has ended. -/
  | ended
  deriving DecidableEq

/-- Where the owner of the `EventLoopThread` is. -/
inductive Owner
  /-- In `startLoop`. -/
  | starting
  | running
  /-- In `~EventLoopThread`, in front of the test of `loop_`. -/
  | exiting
  /-- Behind the test, in front of the read of `loop_` for `loop_->quit()`. -/
  | tested
  /-- In front of the store in `quit()`. -/
  | loaded
  /-- In front of the `wakeup()` in `quit()`. -/
  | quitting
  /-- In `thread_.join()`. -/
  | joining
  | returned
  deriving DecidableEq

inductive Assertion
  | loop (a : EventLoop.Assertion)
  /-- The call of `quit()` through a null pointer. -/
  | nullLoop
  /-- The call of `quit()` on a loop whose lifetime has ended. -/
  | deadLoop
  deriving DecidableEq

/-- The thread up to its `loop_ = nullptr`, the rest of `threadFunc`, and the owner. The owner's
calls on the loop are those of the thread `none`. -/
structure State (T F : Type) where
  thread : EventLoopThread.State (Option T) F
  epilogue : Epilogue
  owner : Owner

inductive Action (T F : Type)
  /-- A step of `threadFunc` in front of its end, or of a call on the loop. -/
  | inThread (a : EventLoopThread.Action (Option T) F)
  | lock
  | clear
  | unlock
  | destruct
  | startLoop
  | dtor
  | test
  | load
  | quit
  | wakeup
  | join

/-- The owner uses the loop between `startLoop` and its destructor; `loop_ = nullptr` is a step
of its own. -/
def State.mayTake (s : State T F) : EventLoopThread.Action (Option T) F → Bool
  | .unpublish => false
  | .inLoop (.push none _) => decide (s.owner = .running)
  | .inLoop (.setQuit none) => decide (s.owner = .running)
  | .inLoop (.wakeup none) => decide (s.owner = .running)
  | _ => true

variable [DecidableEq T]

/-- The thread takes a step of the model without a destructor. -/
def State.inThread (s : State T F) (p : Epilogue) (a : EventLoopThread.Action (Option T) F) :
    Option (Except Assertion (State T F)) :=
  (EventLoopThread.step s.thread a).map fun r =>
    (nested Assertion.loop r).map fun t => { s with thread := t, epilogue := p }

/-- The store in a `quit()` of the owner. -/
def State.setQuit (s : State T F) : State T F :=
  let w := s.thread.world
  { s with
    thread := { s.thread with
      world := { w with
        loop := { w.loop with quit := true }
        foreign := Function.update w.foreign none .quitting } }
    owner := .quitting }

/-- The `wakeup()` behind it, for which the loop may be gone already. -/
def State.wakeup (s : State T F) : State T F :=
  let w := s.thread.world
  { s with
    thread := { s.thread with
      world := { w with
        -- `wakeup()` writes to the descriptor of a loop that may be gone
        loop := w.loop.wakeup
        foreign := Function.update w.foreign none .idle } }
    owner := .joining }

def step (s : State T F) : Action T F → Option (Except Assertion (State T F))
  | .inThread a => if s.mayTake a = true then s.inThread s.epilogue a else none
  | .lock =>
      if s.thread.threadFunc = .returned ∧ s.epilogue = .before then
        some (.ok { s with epilogue := .locked })
      else none
  -- the destructor does not lock `mutex_`, so its reads may come between these steps
  | .clear => if s.epilogue = .locked then s.inThread .cleared .unpublish else none
  | .unlock =>
      if s.epilogue = .cleared then some (.ok { s with epilogue := .unlocked }) else none
  | .destruct =>
      if s.epilogue = .unlocked then some (.ok { s with epilogue := .ended }) else none
  | .startLoop =>
      if s.owner = .starting ∧ s.thread.loop_ = true then
        some (.ok { s with owner := .running })
      else none
  | .dtor =>
      if s.owner = .running ∧ s.thread.world.foreign none = .idle then
        some (.ok { s with owner := .exiting })
      else none
  | .test =>
      if s.owner = .exiting then
        -- without a loop it returns and does not join
        some (.ok { s with owner := if s.thread.loop_ = true then .tested else .returned })
      else none
  | .load =>
      if s.owner = .tested then
        some (do
          -- `loop_->quit()` reads `loop_` again
          check (s.thread.loop_ = true) .nullLoop
          .ok { s with owner := .loaded })
      else none
  | .quit =>
      if s.owner = .loaded then
        some (do
          check (s.epilogue ≠ .ended) .deadLoop
          .ok s.setQuit)
      else none
  | .wakeup => if s.owner = .quitting then some (.ok s.wakeup) else none
  | .join =>
      if s.owner = .joining ∧ s.epilogue = .ended then
        some (.ok { s with owner := .returned })
      else none

/-- The thread in front of its callback, and its owner in `startLoop`. -/
def start : State T F where
  thread := EventLoopThread.start
  epilogue := .before
  owner := .starting

/-- The runs of a thread and of its destructor. -/
def runs : System (State T F) (Action T F) Assertion where
  init := fun s => s = start
  step := step

/-! ## What is promised, and when -/

/-- The destructor calls `quit()` on no loop that is gone, and once it has returned the thread
does not touch `mutex_` and `loop_` any more. -/
structure State.Clean (s : State T F) : Prop where
  load : ∀ e, ¬ runs.Fails s .load e
  quit : ∀ e, ¬ runs.Fails s .quit e
  returned : s.owner = .returned → s.epilogue = .unlocked ∨ s.epilogue = .ended

/-- `loop_ = nullptr` does not come between the two reads of the destructor, nor `~EventLoop`
between its second read and its store; and where its test finds no loop, `mutex_` has been
unlocked. -/
structure Undisturbed (s : State T F) (a : Action T F) : Prop where
  clear : a = .clear → s.owner ≠ .tested
  destruct : a = .destruct → s.owner ≠ .loaded
  test : a = .test → s.thread.loop_ = false → s.epilogue ≠ .cleared

theorem load_fails_iff {s : State T F} :
    (∃ e, runs.Fails s .load e) ↔ s.owner = .tested ∧ s.thread.loop_ = false := by
  constructor
  · rintro ⟨e, hf⟩
    have hs : step s .load = some (.error e) := hf
    simp only [step] at hs
    split at hs
    case isTrue ho =>
      refine ⟨ho, Bool.eq_false_iff.mpr fun hl => ?_⟩
      rw [check_bind hl] at hs
      cases hs
    case isFalse => cases hs
  · rintro ⟨ho, hl⟩
    refine ⟨.nullLoop, ?_⟩
    show step s .load = _
    simp only [step, ho, hl]
    rfl

theorem quit_fails_iff {s : State T F} :
    (∃ e, runs.Fails s .quit e) ↔ s.owner = .loaded ∧ s.epilogue = .ended := by
  constructor
  · rintro ⟨e, hf⟩
    have hs : step s .quit = some (.error e) := hf
    simp only [step] at hs
    split at hs
    case isTrue ho =>
      refine ⟨ho, ?_⟩
      by_contra hne
      rw [check_bind hne] at hs
      cases hs
    case isFalse => cases hs
  · rintro ⟨ho, he⟩
    refine ⟨.deadLoop, ?_⟩
    show step s .quit = _
    simp only [step, ho, he]
    rfl

/-- A clean state, by the places of the two threads. -/
theorem clean_iff {s : State T F} : s.Clean ↔
    (s.owner = .tested → s.thread.loop_ = true) ∧ (s.owner = .loaded → s.epilogue ≠ .ended) ∧
      (s.owner = .returned → s.epilogue = .unlocked ∨ s.epilogue = .ended) := by
  constructor
  · intro h
    refine ⟨?_, ?_, h.returned⟩
    · intro ho
      by_contra hl
      obtain ⟨e, hf⟩ := load_fails_iff.mpr ⟨ho, Bool.eq_false_iff.mpr hl⟩
      exact h.load e hf
    · intro ho he
      obtain ⟨e, hf⟩ := quit_fails_iff.mpr ⟨ho, he⟩
      exact h.quit e hf
  · rintro ⟨hload, hquit, hreturned⟩
    refine ⟨?_, ?_, hreturned⟩
    · intro e hf
      obtain ⟨ho, hl⟩ := load_fails_iff.mp ⟨e, hf⟩
      rw [hload ho] at hl
      cases hl
    · intro e hf
      obtain ⟨ho, he⟩ := quit_fails_iff.mp ⟨e, hf⟩
      exact hquit ho he

/-! ## What the steps do -/

/-- The steps, each with the condition under which it is possible and with what it leads to. -/
inductive Moves (s : State T F) : Action T F → State T F → Prop
  | inThread {a : EventLoopThread.Action (Option T) F} {t : EventLoopThread.State (Option T) F}
      (ha : s.mayTake a = true) (hm : EventLoopThread.Moves s.thread a t) :
      Moves s (.inThread a) { s with thread := t }
  | lock (hp : s.thread.threadFunc = .returned) (he : s.epilogue = .before) :
      Moves s .lock { s with epilogue := .locked }
  | clear (he : s.epilogue = .locked) (hp : s.thread.threadFunc = .returned) :
      Moves s .clear { s with
        thread := { s.thread with threadFunc := .finished, loop_ := false }
        epilogue := .cleared }
  | unlock (he : s.epilogue = .cleared) : Moves s .unlock { s with epilogue := .unlocked }
  | destruct (he : s.epilogue = .unlocked) : Moves s .destruct { s with epilogue := .ended }
  | startLoop (ho : s.owner = .starting) (hl : s.thread.loop_ = true) :
      Moves s .startLoop { s with owner := .running }
  | dtor (ho : s.owner = .running) : Moves s .dtor { s with owner := .exiting }
  | tested (ho : s.owner = .exiting) (hl : s.thread.loop_ = true) :
      Moves s .test { s with owner := .tested }
  | returned (ho : s.owner = .exiting) (hl : s.thread.loop_ = false) :
      Moves s .test { s with owner := .returned }
  | load (ho : s.owner = .tested) (hl : s.thread.loop_ = true) :
      Moves s .load { s with owner := .loaded }
  | quit (ho : s.owner = .loaded) (he : s.epilogue ≠ .ended) : Moves s .quit s.setQuit
  | wakeup (ho : s.owner = .quitting) : Moves s .wakeup s.wakeup
  | join (ho : s.owner = .joining) (he : s.epilogue = .ended) :
      Moves s .join { s with owner := .returned }

variable {s u : State T F} {a : Action T F}

theorem inThread_moves {p : Epilogue} {b : EventLoopThread.Action (Option T) F}
    (h : s.inThread p b = some (.ok u)) :
    ∃ t, EventLoopThread.Moves s.thread b t ∧ u = { s with thread := t, epilogue := p } := by
  obtain ⟨r, hr, hu⟩ := Option.map_eq_some_iff.mp h
  cases r with
  | error e => cases hu
  | ok t =>
      cases hu
      exact ⟨t, EventLoopThread.next_moves hr, rfl⟩

theorem next_moves (hn : runs.Next s a u) : Moves s a u := by
  have hs : step s a = some (.ok u) := hn
  cases a with
  | inThread b =>
      simp only [step] at hs
      split at hs
      case isTrue ha =>
        obtain ⟨t, hm, rfl⟩ := inThread_moves hs
        exact Moves.inThread ha hm
      case isFalse => cases hs
  | lock =>
      obtain ⟨hc, hu⟩ := of_guard hs
      cases hu
      exact Moves.lock hc.1 hc.2
  | clear =>
      simp only [step] at hs
      split at hs
      case isTrue he =>
        obtain ⟨t, hm, rfl⟩ := inThread_moves hs
        cases hm with
        | unpublish hp => exact Moves.clear he hp
      case isFalse => cases hs
  | unlock =>
      obtain ⟨he, hu⟩ := of_guard hs
      cases hu
      exact Moves.unlock he
  | destruct =>
      obtain ⟨he, hu⟩ := of_guard hs
      cases hu
      exact Moves.destruct he
  | startLoop =>
      obtain ⟨hc, hu⟩ := of_guard hs
      cases hu
      exact Moves.startLoop hc.1 hc.2
  | dtor =>
      obtain ⟨hc, hu⟩ := of_guard hs
      cases hu
      exact Moves.dtor hc.1
  | test =>
      obtain ⟨ho, hu⟩ := of_guard hs
      cases hu
      cases hl : s.thread.loop_ with
      | true => exact Moves.tested ho hl
      | false => exact Moves.returned ho hl
  | load =>
      obtain ⟨ho, hu⟩ := of_guard hs
      obtain ⟨_, hl, hu⟩ := bind_eq_ok.mp hu
      cases hu
      exact Moves.load ho (check_eq_ok.mp hl)
  | quit =>
      obtain ⟨ho, hu⟩ := of_guard hs
      obtain ⟨_, he, hu⟩ := bind_eq_ok.mp hu
      cases hu
      exact Moves.quit ho (check_eq_ok.mp he)
  | wakeup =>
      obtain ⟨ho, hu⟩ := of_guard hs
      cases hu
      exact Moves.wakeup ho
  | join =>
      obtain ⟨hc, hu⟩ := of_guard hs
      cases hu
      exact Moves.join hc.1 hc.2

/-! ## The invariant -/

/-- The thread has published its loop, be it gone or not. -/
def State.published (s : State T F) : Prop :=
  s.thread.threadFunc ≠ .callback ∧ s.thread.threadFunc ≠ .publishing

/-- `startLoop` returns only behind the publication; `loop_` is set from there until the thread
clears it; and the thread gets to its epilogue only when the loop has returned. -/
structure Inv (s : State T F) : Prop where
  order : s.owner ≠ .starting → s.published
  unpublished : ¬ s.published → s.thread.loop_ = false
  pointer : s.published → (s.thread.loop_ = true ↔ s.epilogue = .before ∨ s.epilogue = .locked)
  tail : s.epilogue ≠ .before →
    s.thread.threadFunc = .returned ∨ s.thread.threadFunc = .finished

omit [DecidableEq T] in
theorem inv_start : Inv (start : State T F) where
  order := fun ho => absurd rfl ho
  unpublished := fun _ => rfl
  pointer := fun hp => absurd rfl hp.1
  tail := fun he => absurd rfl he

omit [DecidableEq T] in
/-- The end of `threadFunc` comes last. -/
theorem Inv.before (h : Inv s) (hp : s.thread.threadFunc ≠ .returned)
    (hf : s.thread.threadFunc ≠ .finished) : s.epilogue = .before := by
  by_contra hne
  rcases h.tail hne with heq | heq
  · exact hp heq
  · exact hf heq

/-- A step in front of the end of `threadFunc`. -/
theorem Inv.inThread (h : Inv s) {b : EventLoopThread.Action (Option T) F}
    {t : EventLoopThread.State (Option T) F} (hb : b ≠ .unpublish)
    (hm : EventLoopThread.Moves s.thread b t) : Inv { s with thread := t } := by
  cases hm with
  | inLoop => exact ⟨h.order, h.unpublished, h.pointer, h.tail⟩
  | callbackReturns hp =>
      have hnot : ¬ s.published := fun hpub => hpub.1 hp
      refine ⟨fun ho => absurd (h.order ho) hnot, fun _ => h.unpublished hnot,
        fun hpub => absurd rfl hpub.2, fun he => ?_⟩
      exact absurd (h.before (by rw [hp]; rintro ⟨⟩) (by rw [hp]; rintro ⟨⟩)) he
  -- `loop_ = &loop`, and from now on the pointer is null only at the end
  | publish hp =>
      have he := h.before (by rw [hp]; rintro ⟨⟩) (by rw [hp]; rintro ⟨⟩)
      refine ⟨fun _ => ⟨by rintro ⟨⟩, by rintro ⟨⟩⟩, fun hnot => ?_, fun _ => ?_,
        fun hne => absurd he hne⟩
      · exact absurd ⟨by rintro ⟨⟩, by rintro ⟨⟩⟩ hnot
      · exact ⟨fun _ => Or.inl he, fun _ => rfl⟩
  | callLoop hp =>
      have he := h.before (by rw [hp]; rintro ⟨⟩) (by rw [hp]; rintro ⟨⟩)
      have hpub : s.published := ⟨by rw [hp]; rintro ⟨⟩, by rw [hp]; rintro ⟨⟩⟩
      refine ⟨fun _ => ⟨by rintro ⟨⟩, by rintro ⟨⟩⟩, fun hnot => ?_, fun _ => h.pointer hpub,
        fun hne => absurd he hne⟩
      exact absurd ⟨by rintro ⟨⟩, by rintro ⟨⟩⟩ hnot
  | loopReturns hp =>
      have hpub : s.published := ⟨by rw [hp]; rintro ⟨⟩, by rw [hp]; rintro ⟨⟩⟩
      refine ⟨fun _ => ⟨by rintro ⟨⟩, by rintro ⟨⟩⟩, fun hnot => ?_, fun _ => h.pointer hpub,
        fun _ => Or.inl rfl⟩
      exact absurd ⟨by rintro ⟨⟩, by rintro ⟨⟩⟩ hnot
  | unpublish => exact absurd rfl hb

omit [DecidableEq T] in
/-- A step of the owner, which does not begin before the loop is published. -/
theorem Inv.owner (h : Inv s) (ho : s.owner ≠ .starting) (o : Owner) :
    Inv { s with owner := o } :=
  ⟨fun _ => h.order ho, h.unpublished, h.pointer, h.tail⟩

omit [DecidableEq T] in
/-- A step behind `loop_ = nullptr`. -/
theorem Inv.withdrawn (h : Inv s) (he : s.epilogue = .cleared ∨ s.epilogue = .unlocked)
    {p : Epilogue} (hb : p ≠ .before) (hl : p ≠ .locked) : Inv { s with epilogue := p } := by
  have hne : s.epilogue ≠ .before ∧ s.epilogue ≠ .locked := by
    rcases he with he | he
    · rw [he]
      exact ⟨by rintro ⟨⟩, by rintro ⟨⟩⟩
    · rw [he]
      exact ⟨by rintro ⟨⟩, by rintro ⟨⟩⟩
  refine ⟨h.order, h.unpublished, fun hpub => ?_, fun _ => h.tail hne.1⟩
  constructor
  · intro hptr
    rcases (h.pointer hpub).mp hptr with heq | heq
    · exact absurd heq hne.1
    · exact absurd heq hne.2
  · rintro (heq | heq)
    · exact absurd heq hb
    · exact absurd heq hl

theorem Inv.moves (h : Inv s) (hm : Moves s a u) : Inv u := by
  cases hm with
  | inThread ha hm => exact h.inThread (by rintro rfl; cases ha) hm
  | lock hp he =>
      have hpub : s.published := ⟨by rw [hp]; rintro ⟨⟩, by rw [hp]; rintro ⟨⟩⟩
      have hl := (h.pointer hpub).mpr (Or.inl he)
      exact ⟨h.order, h.unpublished, fun _ => ⟨fun _ => Or.inr rfl, fun _ => hl⟩,
        fun _ => Or.inl hp⟩
  | clear he hp =>
      have hpub : State.published (F := F) { s with
          thread := { s.thread with threadFunc := .finished, loop_ := false }
          epilogue := .cleared } := ⟨by rintro ⟨⟩, by rintro ⟨⟩⟩
      refine ⟨fun _ => hpub, fun hnot => absurd hpub hnot, fun _ => ?_, fun _ => Or.inr rfl⟩
      constructor
      · rintro ⟨⟩
      · rintro (hb | hl)
        · cases hb
        · cases hl
  | unlock he => exact h.withdrawn (Or.inl he) (by rintro ⟨⟩) (by rintro ⟨⟩)
  | destruct he => exact h.withdrawn (Or.inr he) (by rintro ⟨⟩) (by rintro ⟨⟩)
  | startLoop ho hl =>
      have hpub : s.published := by
        by_contra hnot
        rw [h.unpublished hnot] at hl
        cases hl
      exact ⟨fun _ => hpub, h.unpublished, h.pointer, h.tail⟩
  | dtor ho => exact h.owner (by rw [ho]; rintro ⟨⟩) .exiting
  | tested ho => exact h.owner (by rw [ho]; rintro ⟨⟩) .tested
  | returned ho => exact h.owner (by rw [ho]; rintro ⟨⟩) .returned
  | load ho => exact h.owner (by rw [ho]; rintro ⟨⟩) .loaded
  | quit ho =>
      have hinv := h.owner (by rw [ho]; rintro ⟨⟩) .quitting
      exact ⟨hinv.order, hinv.unpublished, hinv.pointer, hinv.tail⟩
  | wakeup ho =>
      have hinv := h.owner (by rw [ho]; rintro ⟨⟩) .joining
      exact ⟨hinv.order, hinv.unpublished, hinv.pointer, hinv.tail⟩
  | join ho => exact h.owner (by rw [ho]; rintro ⟨⟩) .returned

theorem reachable_inv {P : State T F → Action T F → Prop} (h : runs.Reachable P s) : Inv s :=
  h.invariant (by rintro _ rfl; exact inv_start) fun _ _ _ hi _ hn => hi.moves (next_moves hn)

/-! ## The end -/

omit [DecidableEq T] in
/-- Once published, the pointer is null exactly behind `loop_ = nullptr`. -/
theorem Inv.null (h : Inv s) (ho : s.owner ≠ .starting) (hl : s.thread.loop_ = false) :
    s.epilogue = .cleared ∨ s.epilogue = .unlocked ∨ s.epilogue = .ended := by
  have hptr := h.pointer (h.order ho)
  rw [hl] at hptr
  cases he : s.epilogue with
  | before => cases hptr.mpr (Or.inl he)
  | locked => cases hptr.mpr (Or.inr he)
  | cleared => exact Or.inl rfl
  | unlocked => exact Or.inr (Or.inl rfl)
  | ended => exact Or.inr (Or.inr rfl)

/-- `threadFunc` does not withdraw its pointer in front of its end. -/
theorem loop_kept {b : EventLoopThread.Action (Option T) F}
    {t : EventLoopThread.State (Option T) F} (hb : b ≠ .unpublish)
    (hm : EventLoopThread.Moves s.thread b t) (hl : s.thread.loop_ = true) : t.loop_ = true := by
  cases hm with
  | publish => rfl
  | unpublish => exact absurd rfl hb
  | _ => exact hl

/-- **The step lemma.** An undisturbed step keeps the destruction clean. -/
theorem clean_moves (hinv : Inv s) (hc : s.Clean) (hu : Undisturbed s a) (hm : Moves s a u) :
    u.Clean := by
  obtain ⟨hload, hquit, hreturned⟩ := clean_iff.mp hc
  apply clean_iff.mpr
  cases hm with
  | inThread ha hm =>
      refine ⟨fun ho => ?_, hquit, hreturned⟩
      exact loop_kept (by rintro rfl; cases ha) hm (hload ho)
  | lock hp he =>
      refine ⟨hload, fun _ => by rintro ⟨⟩, fun ho => ?_⟩
      rcases hreturned ho with heq | heq <;> rw [he] at heq <;> cases heq
  | clear he hp =>
      refine ⟨fun ho => absurd ho (hu.clear rfl), fun _ => by rintro ⟨⟩, fun ho => ?_⟩
      rcases hreturned ho with heq | heq <;> rw [he] at heq <;> cases heq
  | unlock he => exact ⟨hload, fun _ => by rintro ⟨⟩, fun _ => Or.inl rfl⟩
  | destruct he => exact ⟨hload, fun ho => absurd ho (hu.destruct rfl), fun _ => Or.inr rfl⟩
  | startLoop | dtor => exact ⟨by rintro ⟨⟩, by rintro ⟨⟩, by rintro ⟨⟩⟩
  | tested ho hl => exact ⟨fun _ => hl, by rintro ⟨⟩, by rintro ⟨⟩⟩
  | returned ho hl =>
      refine ⟨by rintro ⟨⟩, by rintro ⟨⟩, fun _ => ?_⟩
      -- the pointer is null, so the thread is behind `loop_ = nullptr`; it has unlocked too
      have hnull := hinv.null (by rw [ho]; rintro ⟨⟩) hl
      exact hnull.resolve_left (hu.test rfl hl)
  | load ho hl =>
      refine ⟨by rintro ⟨⟩, fun _ he => ?_, by rintro ⟨⟩⟩
      -- the pointer is there, so `~EventLoop` has not run
      have hpub := hinv.order (by rw [ho]; rintro ⟨⟩)
      have he : s.epilogue = .ended := he
      rcases (hinv.pointer hpub).mp hl with heq | heq <;> rw [he] at heq <;> cases heq
  | quit | wakeup => exact ⟨by rintro ⟨⟩, by rintro ⟨⟩, by rintro ⟨⟩⟩
  | join ho he => exact ⟨by rintro ⟨⟩, by rintro ⟨⟩, fun _ => Or.inr he⟩

/-- A step that leads to a clean state is not disturbed. -/
theorem undisturbed_of_clean (hm : Moves s a u) (hc : u.Clean) : Undisturbed s a := by
  obtain ⟨hload, hquit, hreturned⟩ := clean_iff.mp hc
  constructor
  · rintro rfl ho
    cases hm with
    | clear => cases hload ho
  · rintro rfl ho
    cases hm with
    | destruct => exact hquit ho rfl
  · rintro rfl hl he
    cases hm with
    | tested ho hl' =>
        rw [hl] at hl'
        cases hl'
    | returned ho =>
        rcases hreturned rfl with heq | heq
        · have heq : s.epilogue = .unlocked := heq
          rw [he] at heq
          cases heq
        · have heq : s.epilogue = .ended := heq
          rw [he] at heq
          cases heq

/-- Every run whose steps are undisturbed tears the thread down cleanly, and a step behind such
a run does if and only if it is undisturbed. -/
theorem tears_down (s : State T F) (h : runs.Reachable Undisturbed s) :
    s.Clean ∧ ∀ a u, runs.Next s a u → (u.Clean ↔ Undisturbed s a) := by
  have hclean : ∀ {s : State T F}, runs.Reachable Undisturbed s → Inv s ∧ s.Clean := by
    intro s h
    apply h.invariant
    · rintro _ rfl
      exact ⟨inv_start, clean_iff.mpr ⟨by rintro ⟨⟩, by rintro ⟨⟩, by rintro ⟨⟩⟩⟩
    · rintro s a u ⟨hinv, hc⟩ hu hn
      exact ⟨hinv.moves (next_moves hn), clean_moves hinv hc hu (next_moves hn)⟩
  obtain ⟨hinv, hc⟩ := hclean h
  refine ⟨hc, ?_⟩
  intro a u hn
  constructor
  · exact undisturbed_of_clean (next_moves hn)
  · intro hu
    exact clean_moves hinv hc hu (next_moves hn)

/-! ## Nobody else quits -/

/-- The step is no `quit()` but the destructor's. -/
def Alone (_ : State T F) (a : Action T F) : Prop :=
  a ≠ .inThread (.inLoop .quit) ∧ ∀ thread, a ≠ .inThread (.inLoop (.setQuit thread))

/-- The destructor has executed the store of its `quit()`. -/
def Owner.called : Owner → Bool
  | .quitting => true
  | .joining => true
  | .returned => true
  | _ => false

/-- `loop()` has left its `while`. -/
def State.left (s : State T F) : Prop :=
  (s.thread.threadFunc = .looping ∧ s.thread.world.phase = .outside) ∨
    s.thread.threadFunc = .returned ∨ s.thread.threadFunc = .finished

/-- The loop is left, and `quit_` set, for the destructor only. -/
structure Waits (s : State T F) : Prop where
  quit : s.thread.world.loop.quit = true → s.owner.called = true
  left : s.left → s.owner.called = true

/-- A step of the loop that is no `quit()`. -/
theorem Waits.inLoop (h : Waits s) {b : EventLoop.Action (Option T) F} {w : World (Option T) F}
    (hb : b ≠ .quit ∧ ∀ thread, b ≠ .setQuit thread) (hm : EventLoop.Moves s.thread.world b w) :
    Waits { s with thread := { s.thread with world := w } } := by
  have hbefore : ∀ {v : World (Option T) F},
      (v.loop.quit = true → s.thread.world.loop.quit = true) →
      (v.phase = .outside → s.thread.world.phase = .outside) →
      Waits { s with thread := { s.thread with world := v } } := by
    intro v hquit hphase
    refine ⟨fun hq => h.quit (hquit hq), ?_⟩
    rintro (⟨hp, hout⟩ | hleft)
    · exact h.left (Or.inl ⟨hp, hphase hout⟩)
    · exact h.left (Or.inr hleft)
  cases hm with
  | quit => exact absurd rfl hb.1
  | setQuit => exact absurd rfl (hb.2 _)
  -- the steps of other threads do not touch `quit_` and do not leave the loop
  | queueInLoop => exact hbefore (fun hq => (EventLoop.queueInLoop_quit ..).symm.trans hq) id
  | push | wakeup => exact hbefore id id
  | leave hp hq =>
      -- `while (!quit_)` ends, so the destructor has set `quit_`
      exact ⟨fun _ => h.quit hq, fun _ => h.quit hq⟩
  -- `loop()` begins with `quit_ = false`
  | storeQuit => exact hbefore (by rintro ⟨⟩) (by rintro ⟨⟩)
  | _ => exact hbefore id (by rintro ⟨⟩)

theorem Waits.inThread (h : Waits s) {b : EventLoopThread.Action (Option T) F}
    {t : EventLoopThread.State (Option T) F} (ha : Alone s (.inThread b))
    (hm : EventLoopThread.Moves s.thread b t) : Waits { s with thread := t } := by
  have hnot : ∀ {p : ThreadFunc} {l : Bool}, p ≠ .looping → p ≠ .returned → p ≠ .finished →
      Waits { s with thread := { s.thread with threadFunc := p, loop_ := l } } := by
    intro p l hl hr hf
    refine ⟨h.quit, ?_⟩
    rintro (⟨hp, -⟩ | hp | hp)
    · exact absurd hp hl
    · exact absurd hp hr
    · exact absurd hp hf
  cases hm with
  | @inLoop b w hallows hm =>
      refine h.inLoop ⟨?_, ?_⟩ hm
      · rintro rfl
        exact ha.1 rfl
      · rintro thread rfl
        exact ha.2 thread rfl
  | callbackReturns => exact hnot (by rintro ⟨⟩) (by rintro ⟨⟩) (by rintro ⟨⟩)
  | publish => exact hnot (by rintro ⟨⟩) (by rintro ⟨⟩) (by rintro ⟨⟩)
  | callLoop hp hm =>
      cases hm with
      | loop =>
          refine ⟨h.quit, ?_⟩
          rintro (⟨-, hout⟩ | hr | hf)
          · cases hout
          · cases hr
          · cases hf
  | loopReturns hp hl =>
      have hout : s.thread.world.phase = .outside := by
        cases hphase : s.thread.world.phase with
        | outside => rfl
        | _ => rw [hphase] at hl; cases hl
      exact ⟨h.quit, fun _ => h.left (Or.inl ⟨hp, hout⟩)⟩
  | unpublish hp => exact ⟨h.quit, fun _ => h.left (Or.inr (Or.inl hp))⟩

theorem Waits.moves (h : Waits s) (ha : Alone s a) (hm : Moves s a u) : Waits u := by
  have howner : ∀ o, (s.owner.called = true → o.called = true) →
      Waits { s with owner := o } :=
    fun o ho => ⟨fun hq => ho (h.quit hq), fun hl => ho (h.left hl)⟩
  cases hm with
  | inThread _ hm => exact h.inThread ha hm
  | lock | unlock | destruct => exact ⟨h.quit, h.left⟩
  | clear _ hp => exact ⟨h.quit, fun _ => h.left (Or.inr (Or.inl hp))⟩
  | startLoop ho => exact howner _ (by rw [ho]; rintro ⟨⟩)
  | dtor ho => exact howner _ (by rw [ho]; rintro ⟨⟩)
  | tested ho => exact howner _ (by rw [ho]; rintro ⟨⟩)
  | load ho => exact howner _ (by rw [ho]; rintro ⟨⟩)
  | returned | join => exact howner _ fun _ => rfl
  | quit | wakeup => exact ⟨fun _ => rfl, fun _ => rfl⟩

omit [DecidableEq T] in
/-- The thread does not end before the destructor has called `quit()`. -/
theorem Waits.before (h : Waits s) (hinv : Inv s) (ho : s.owner.called = false) :
    s.epilogue = .before := by
  apply hinv.before
  · intro hp
    rw [h.left (Or.inr (Or.inl hp))] at ho
    cases ho
  · intro hp
    rw [h.left (Or.inr (Or.inr hp))] at ho
    cases ho

/-- If nobody else calls `quit()`, all steps are undisturbed. -/
theorem undisturbed_of_alone (h : runs.Reachable Alone s) (hn : runs.Next s a u) :
    Undisturbed s a := by
  -- in front of the destructor's `quit()` the thread is still in its loop
  have hwaits : Waits s := by
    apply h.invariant
    · rintro _ rfl
      refine ⟨by rintro ⟨⟩, ?_⟩
      rintro (⟨hp, -⟩ | hp | hp)
      · cases hp
      · cases hp
      · cases hp
    · intro s a u hs ha hn
      exact hs.moves ha (next_moves hn)
  have hinv := reachable_inv h
  constructor
  · rintro rfl ho
    cases next_moves hn with
    | clear he =>
        rw [hwaits.before hinv (by rw [ho]; rfl)] at he
        cases he
  · rintro rfl ho
    cases next_moves hn with
    | destruct he =>
        rw [hwaits.before hinv (by rw [ho]; rfl)] at he
        cases he
  · rintro rfl - hc
    have ho : s.owner = .exiting := by
      cases next_moves hn with
      | tested ho => exact ho
      | returned ho => exact ho
    rw [hwaits.before hinv (by rw [ho]; rfl)] at hc
    cases hc

theorem reachable_of_alone (h : runs.Reachable Alone s) : runs.Reachable Undisturbed s := by
  obtain ⟨s₀, as, h₀, hrun⟩ := h
  refine ⟨s₀, as, h₀, ?_⟩
  induction hrun with
  | nil => exact System.Run.nil
  | snoc hr _ hn ih => exact ih.snoc (undisturbed_of_alone ⟨s₀, _, h₀, hr⟩ hn) hn

/-! ## Runs -/

/-- Until `startLoop` returns, and on to the first condition in `loop()`. -/
def looping : List (Action Unit Nat) :=
  [.inThread .callbackReturns, .inThread .publish, .startLoop, .inThread .callLoop,
    .inThread (.inLoop .storeQuit)]

/-- The destructor calls `quit()`, and the thread goes to its end. -/
def exiting : List (Action Unit Nat) :=
  [.dtor, .test, .load, .quit, .inThread (.inLoop .condition), .wakeup, .inThread .loopReturns,
    .lock, .clear, .unlock, .destruct, .join]

theorem tears_down_sample : ∃ s : State Unit Nat, runs.Reachable Undisturbed s ∧
    s.owner = .returned ∧ s.Clean := by
  have hrun := System.run_of_exec
    (rfl : runs.exec start (looping ++ exiting) = some (.ok _))
  have halone : ∀ a ∈ looping ++ exiting, ∀ s : State Unit Nat, Alone s a := by
    intro a ha s
    constructor
    · rintro rfl
      simp [looping, exiting] at ha
    · rintro thread rfl
      simp [looping, exiting] at ha
  have hreach := System.Reachable.run (System.Reachable.of_init rfl) (hrun.of_actions halone)
  refine ⟨_, reachable_of_alone hreach, ?_, (tears_down _ (reachable_of_alone hreach)).1⟩
  rfl

/-- Somebody else calls `quit()`, and `loop()` returns. -/
def quitBefore : List (Action Unit Nat) :=
  [.inThread (.inLoop (.setQuit (some ()))), .inThread (.inLoop .condition),
    .inThread .loopReturns, .lock]

/-- The thread ends between the second read of the destructor and its `quit()`; or the
destructor finds no loop and returns in front of the unlock of `mutex_`. -/
theorem quits_dead_loop : (∃ s : State Unit Nat, runs.Reachable System.always s ∧
      runs.Fails s .quit .deadLoop) ∧
    (∃ s : State Unit Nat, runs.Reachable System.always s ∧
      s.owner = .returned ∧ s.epilogue = .cleared) ∧
    ¬ ∀ s : State Unit Nat, runs.Reachable System.always s → s.Clean := by
  have hdead := System.Reachable.run (System.Reachable.of_init rfl) (System.run_of_exec
    (rfl : runs.exec start (looping ++ quitBefore ++
      [.dtor, .test, .load, .clear, .unlock, .destruct]) = some (.ok _)))
  have hreturned := System.Reachable.run (System.Reachable.of_init rfl) (System.run_of_exec
    (rfl : runs.exec start (looping ++ quitBefore ++ [.clear, .dtor, .test]) = some (.ok _)))
  refine ⟨⟨_, hdead, ?_⟩, ⟨_, hreturned, ?_, ?_⟩, ?_⟩
  · rfl
  · rfl
  · rfl
  · intro hall
    exact (hall _ hdead).quit .deadLoop rfl

end Zing.Net.EventLoopThread.Exit
