import Zing.Net.EventLoopFunctors

set_option autoImplicit false

/-! # A thread with an event loop

`EventLoopThread::threadFunc` around the runs of its loop, and what becomes of a `quit()` on
another thread. `startLoop` hands the loop out as soon as `loop_` is published, while
`loop()` begins with `quit_ = false`: a `quit()` that comes in between is erased by that
store. `quit_effective_iff` shows that this is the only way to lose one.
-/

namespace Zing.Net

open Zing.Lib

namespace EventLoopThread

open EventLoop (World Phase Assertion)

variable {T F : Type}

/-! ## Steps -/

/-- Where `threadFunc` is. -/
inductive ThreadFunc
  /-- In `callback_(&loop)`. -/
  | callback
  /-- In front of `loop_ = &loop`. -/
  | publishing
  /-- In front of `loop.loop()`. -/
  | published
  /-- In `loop.loop()`. -/
  | looping
  /-- In front of `loop_ = nullptr`. -/
  | returned
  /-- Over: `loop_` is null, and the loop has been destructed. -/
  | finished
  deriving DecidableEq

/-- The thread and its loop; `loop_` says that the pointer is not null. -/
structure State (T F : Type) where
  threadFunc : ThreadFunc
  loop_ : Bool
  world : World T F

inductive Action (T F : Type)
  /-- A step of the loop, or of a call of its functions. -/
  | inLoop (a : EventLoop.Action T F)
  | callbackReturns
  | publish
  | callLoop
  | loopReturns
  | unpublish

/-- Who may take a step of the loop, and when. The callback and the handlers and functors can
use the loop on its own thread; other threads have the pointer from `startLoop`. -/
def State.allows (s : State T F) : EventLoop.Action T F → Bool
  | .queueInLoop _ | .quit =>
      decide (s.threadFunc = .callback) || decide (s.threadFunc = .looping) && s.world.phase.inLoop
  | .push _ _ | .setQuit _ | .wakeup _ => s.loop_
  | .loop => false
  | _ => decide (s.threadFunc = .looping)

variable [DecidableEq T]

/-- The thread takes a step of its loop. -/
def State.inLoop (s : State T F) (p : ThreadFunc) (a : EventLoop.Action T F) :
    Option (Except Assertion (State T F)) :=
  (EventLoop.step s.world a).map fun r =>
    r.map fun w => { s with threadFunc := p, world := w }

def step (s : State T F) : Action T F → Option (Except Assertion (State T F))
  | .inLoop a => if s.allows a = true then s.inLoop s.threadFunc a else none
  | .callbackReturns =>
      if s.threadFunc = .callback then some (.ok { s with threadFunc := .publishing }) else none
  | .publish =>
      if s.threadFunc = .publishing then
        some (.ok { s with threadFunc := .published, loop_ := true })
      else none
  | .callLoop => if s.threadFunc = .published then s.inLoop .looping .loop else none
  | .loopReturns =>
      if s.threadFunc = .looping ∧ s.world.phase.inLoop = false then
        some (.ok { s with threadFunc := .returned })
      else none
  | .unpublish =>
      if s.threadFunc = .returned then
        some (.ok { s with threadFunc := .finished, loop_ := false })
      else none

/-- The thread in front of its callback, with a constructed loop. -/
def start : State T F where
  threadFunc := .callback
  loop_ := false
  world := EventLoop.start

/-- The runs of one thread and its loop. -/
def runs : System (State T F) (Action T F) Assertion where
  init := fun s => s = start
  step := step

/-- What the steps do. -/
inductive Moves (s : State T F) : Action T F → State T F → Prop
  | inLoop {a : EventLoop.Action T F} {w : World T F} (ha : s.allows a = true)
      (hm : EventLoop.Moves s.world a w) : Moves s (.inLoop a) { s with world := w }
  | callbackReturns (hp : s.threadFunc = .callback) :
      Moves s .callbackReturns { s with threadFunc := .publishing }
  | publish (hp : s.threadFunc = .publishing) :
      Moves s .publish { s with threadFunc := .published, loop_ := true }
  | callLoop {w : World T F} (hp : s.threadFunc = .published)
      (hm : EventLoop.Moves s.world .loop w) :
      Moves s .callLoop { s with threadFunc := .looping, world := w }
  | loopReturns (hp : s.threadFunc = .looping) (hl : s.world.phase.inLoop = false) :
      Moves s .loopReturns { s with threadFunc := .returned }
  | unpublish (hp : s.threadFunc = .returned) :
      Moves s .unpublish { s with threadFunc := .finished, loop_ := false }

variable {s t : State T F} {a : Action T F}

theorem inLoop_moves {p : ThreadFunc} {b : EventLoop.Action T F}
    (h : s.inLoop p b = some (.ok t)) :
    ∃ w, EventLoop.Moves s.world b w ∧ t = { s with threadFunc := p, world := w } := by
  obtain ⟨r, hr, ht⟩ := Option.map_eq_some_iff.mp h
  cases r with
  | error e => cases ht
  | ok w =>
      cases ht
      exact ⟨w, EventLoop.next_moves hr, rfl⟩

theorem next_moves (hn : runs.Next s a t) : Moves s a t := by
  have hs : step s a = some (.ok t) := hn
  cases a with
  | inLoop b =>
      simp only [step] at hs
      split at hs
      · case isTrue ha =>
          obtain ⟨w, hm, rfl⟩ := inLoop_moves hs
          exact Moves.inLoop ha hm
      · cases hs
  | callbackReturns =>
      obtain ⟨hp, ht⟩ := of_guard hs
      cases ht
      exact Moves.callbackReturns hp
  | publish =>
      obtain ⟨hp, ht⟩ := of_guard hs
      cases ht
      exact Moves.publish hp
  | callLoop =>
      simp only [step] at hs
      split at hs
      · case isTrue hp =>
          obtain ⟨w, hm, rfl⟩ := inLoop_moves hs
          exact Moves.callLoop hp hm
      · cases hs
  | loopReturns =>
      obtain ⟨hc, ht⟩ := of_guard hs
      cases ht
      exact Moves.loopReturns hc.1 hc.2
  | unpublish =>
      obtain ⟨hp, ht⟩ := of_guard hs
      cases ht
      exact Moves.unpublish hp

/-! ## The invariant -/

/-- What holds in every state of a run. -/
structure Inv (s : State T F) : Prop where
  world : EventLoop.Inv s.world
  outside : s.threadFunc ≠ .looping → s.world.phase = .outside
  published : s.loop_ = true →
    s.threadFunc = .published ∨ s.threadFunc = .looping ∨ s.threadFunc = .returned

omit [DecidableEq T] in
theorem inv_start : Inv (start : State T F) where
  world := EventLoop.inv_start
  outside := fun _ => rfl
  published := by intro h; cases h

/-- Code that is not part of `loop()` leaves the owner in its phase. -/
theorem phase_of_allows {b : EventLoop.Action T F} {w : World T F} (ha : s.allows b = true)
    (hm : EventLoop.Moves s.world b w) (hp : s.threadFunc ≠ .looping) :
    w.phase = s.world.phase := by
  cases hm with
  | queueInLoop | quit | push | setQuit | wakeup => rfl
  | _ => simp [State.allows, hp] at ha

theorem Inv.moves (h : Inv s) (hm : Moves s a t) : Inv t := by
  cases hm with
  | inLoop ha hm =>
      refine ⟨h.world.moves hm, ?_, h.published⟩
      intro hp
      exact (phase_of_allows ha hm hp).trans (h.outside hp)
  | callbackReturns hp =>
      have hout := h.outside (by rw [hp]; decide)
      refine ⟨h.world, fun _ => hout, ?_⟩
      intro hl
      rcases h.published hl with hp' | hp' | hp' <;> rw [hp] at hp' <;> cases hp'
  | publish hp =>
      have hout := h.outside (by rw [hp]; decide)
      exact ⟨h.world, fun _ => hout, fun _ => Or.inl rfl⟩
  | callLoop hp hm =>
      exact ⟨h.world.moves hm, fun hne => absurd rfl hne, fun _ => Or.inr (Or.inl rfl)⟩
  | loopReturns hp hl =>
      have hout : s.world.phase = .outside := by
        cases hphase : s.world.phase with
        | outside => rfl
        | _ => rw [hphase] at hl; cases hl
      exact ⟨h.world, fun _ => hout, fun _ => Or.inr (Or.inr rfl)⟩
  | unpublish hp =>
      have hout := h.outside (by rw [hp]; decide)
      exact ⟨h.world, fun _ => hout, by intro hl; cases hl⟩

theorem reachable_inv {P : State T F → Action T F → Prop} (h : runs.Reachable P s) : Inv s :=
  h.invariant (by rintro _ rfl; exact inv_start) fun _ _ _ hi _ hn => hi.moves (next_moves hn)

/-! ## Quitting -/

/-- `loop()` has executed `quit_ = false`. -/
def State.QuitCleared (s : State T F) : Prop :=
  (s.threadFunc = .looping ∧ s.world.phase ≠ .entered) ∨ s.threadFunc = .returned ∨
    s.threadFunc = .finished

/-- No run from `s` evaluates the condition of `while (!quit_)` to true. -/
def NeverPolls (s : State T F) : Prop :=
  ∀ as t, runs.Run System.always s as t → t.world.polls = s.world.polls

omit [DecidableEq T] in
theorem State.allows_looping {b : EventLoop.Action T F} (h : s.allows b = true)
    (hb : b = .storeQuit ∨ b = .condition) : s.threadFunc = .looping := by
  rcases hb with rfl | rfl <;> exact of_decide_eq_true h

/-- Behind its store the loop keeps what `quit()` has set, and starts no poll. -/
theorem quit_kept (hc : s.QuitCleared) (hq : s.world.loop.quit = true) (hm : Moves s a t) :
    t.QuitCleared ∧ t.world.loop.quit = true ∧ t.world.polls = s.world.polls := by
  cases hm with
  | @inLoop b w ha hm =>
      have hstay : w.phase = .entered → s.world.phase = .entered ∨ b = .loop := by
        intro hw
        cases hm with
        | loop => exact Or.inr rfl
        | queueInLoop | quit | push | setQuit | wakeup => exact Or.inl hw
        | _ => cases hw
      have hcleared : State.QuitCleared { s with world := w } := by
        rcases hc with ⟨hp, hne⟩ | hc
        · refine Or.inl ⟨hp, fun hw => ?_⟩
          rcases hstay hw with hent | rfl
          · exact hne hent
          · cases ha
        · exact Or.inr hc
      refine ⟨hcleared, ?_⟩
      cases hm with
      | queueInLoop => exact ⟨(EventLoop.queueInLoop_quit ..).trans hq, rfl⟩
      | quit | setQuit => exact ⟨rfl, rfl⟩
      | storeQuit hent =>
          -- the store has been executed already
          have hp := State.allows_looping ha (Or.inl rfl)
          rcases hc with ⟨-, hne⟩ | hc | hc
          · exact absurd hent hne
          · rw [hp] at hc; cases hc
          · rw [hp] at hc; cases hc
      | poll hphase hfalse =>
          rw [hq] at hfalse
          cases hfalse
      | _ => exact ⟨hq, rfl⟩
  | callbackReturns hp | publish hp | callLoop hp =>
      rcases hc with ⟨hp', -⟩ | hp' | hp' <;> rw [hp] at hp' <;> cases hp'
  | loopReturns hp => exact ⟨Or.inr (Or.inl rfl), hq, rfl⟩
  | unpublish hp => exact ⟨Or.inr (Or.inr rfl), hq, rfl⟩

theorem neverPolls_of_quit (hc : s.QuitCleared) (hq : s.world.loop.quit = true) :
    NeverPolls s := by
  intro as t hrun
  have hall := hrun.invariant (I := fun u => u.QuitCleared ∧ u.world.loop.quit = true ∧
    u.world.polls = s.world.polls) ?_ ⟨hc, hq, rfl⟩
  · exact hall.2.2
  · rintro u b v ⟨huc, huq, hpolls⟩ - hn
    obtain ⟨hvc, hvq, hsame⟩ := quit_kept huc huq (next_moves hn)
    exact ⟨hvc, hvq, hsame.trans hpolls⟩

theorem next_inLoop {b : EventLoop.Action T F} {w : World T F} (ha : s.allows b = true)
    (hw : EventLoop.step s.world b = some (.ok w)) :
    runs.Next s (.inLoop b) { s with world := w } := by
  show step s (.inLoop b) = _
  rw [step, if_pos ha, State.inLoop, hw]
  rfl

theorem next_callLoop {w : World T F} (hp : s.threadFunc = .published)
    (hw : EventLoop.step s.world .loop = some (.ok w)) :
    runs.Next s .callLoop { s with threadFunc := .looping, world := w } := by
  show step s .callLoop = _
  rw [step, if_pos hp, State.inLoop, hw]
  rfl

/-- In `loop()` and in front of the store, the loop goes on to poll. -/
theorem polls_of_entered (hp : s.threadFunc = .looping) (he : s.world.phase = .entered) :
    ¬ NeverPolls s := by
  intro hnever
  let cleared : World T F :=
    { s.world with loop := { s.world.loop with quit := false }, phase := .condition }
  have hstore : runs.Next s (.inLoop .storeQuit) { s with world := cleared } := by
    have hallows : s.allows .storeQuit = true := decide_eq_true hp
    apply next_inLoop hallows
    simp only [EventLoop.step, he]
    rfl
  have hpoll : runs.Next { s with world := cleared } (.inLoop .condition)
      { s with world := { cleared with phase := .polling, polls := cleared.polls + 1 } } :=
    next_inLoop (s := { s with world := cleared }) (decide_eq_true hp) rfl
  have hrun := System.Run.cons (P := System.always) trivial hstore
    (System.Run.single trivial hpoll)
  have hpolls : s.world.polls + 1 = s.world.polls := hnever _ _ hrun
  exact Nat.succ_ne_self _ hpolls

/-- In front of its call of `loop()` the thread goes on to poll as well. -/
theorem polls_of_published (hinv : Inv s) (hp : s.threadFunc = .published) :
    ¬ NeverPolls s := by
  intro hnever
  have hout := hinv.outside (by rw [hp]; decide)
  have hlooping : s.world.loop.looping = false := by
    rw [hinv.world.looping, hout]
    rfl
  let entered : World T F :=
    { s.world with loop := { s.world.loop with looping := true }, phase := .entered }
  have hcall : runs.Next s .callLoop { s with threadFunc := .looping, world := entered } := by
    apply next_callLoop hp
    have hu : s.world.phase.userCode = true := by
      rw [hout]
      rfl
    simp only [EventLoop.step, hu, if_true, check_bind hlooping]
    rfl
  apply polls_of_entered (s := { s with threadFunc := .looping, world := entered }) rfl rfl
  intro as t hrun
  exact hnever _ t (System.Run.cons trivial hcall hrun)

/-- A `quit()` on another thread keeps the loop from starting another poll, exactly if
`loop()` has executed its `quit_ = false` before. -/
theorem quit_effective_iff (s s' : State T F) (thread : T)
    (h : runs.Reachable System.always s) (hq : runs.Next s (.inLoop (.setQuit thread)) s') :
    NeverPolls s' ↔ s.QuitCleared := by
  have hinv := reachable_inv h
  have hinv' := hinv.moves (next_moves hq)
  cases next_moves hq with
  | @inLoop _ w ha hm =>
      cases hm with
      | setQuit hf =>
          constructor
          · intro hnever
            rcases hinv.published ha with hp | hp | hp
            · exact absurd hnever (polls_of_published hinv' hp)
            · refine Or.inl ⟨hp, fun hent => ?_⟩
              exact absurd hnever (polls_of_entered hp hent)
            · exact Or.inr (Or.inl hp)
          · intro hc
            exact neverPolls_of_quit hc rfl

/-- The steps of `threadFunc` until `loop_` is published. -/
def published : List (Action Unit Nat) := [.callbackReturns, .publish]

/-- Once `loop()` has begun, a `quit()` stops it. -/
theorem quit_effective_sample : ∃ s s', runs.Reachable System.always s ∧
    runs.Next s (.inLoop (.setQuit ())) s' ∧ NeverPolls (T := Unit) (F := Nat) s' := by
  have hrun := System.run_of_exec
    (rfl : runs.exec start (published ++ [.callLoop, .inLoop .storeQuit]) = some (.ok _))
  refine ⟨_, _, ⟨start, _, rfl, hrun⟩, rfl, ?_⟩
  refine (quit_effective_iff _ _ () ⟨start, _, rfl, hrun⟩ rfl).mpr (Or.inl ⟨rfl, ?_⟩)
  intro hent
  cases hent

/-- A `quit()` right after the loop was published is lost: the loop polls. -/
theorem quit_lost : ¬ ∀ (s s' : State Unit Nat) (thread : Unit),
    runs.Reachable System.always s → runs.Next s (.inLoop (.setQuit thread)) s' →
    NeverPolls s' := by
  intro hall
  have hrun := System.run_of_exec (rfl : runs.exec start published = some (.ok _))
  have hnever := hall _ _ () ⟨start, _, rfl, hrun⟩ rfl
  have hpolls := hnever [.callLoop, .inLoop .storeQuit, .inLoop .condition] _
    (System.run_of_exec rfl)
  exact absurd hpolls (by decide)

end EventLoopThread

end Zing.Net
