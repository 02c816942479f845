import Zing.Base.Convert
import Zing.Base.CountDownLatch

set_option autoImplicit false

/-! # Threads

One `Thread` object, the thread that owns it and the thread that `start` creates. The new thread
writes its id into the object and counts the object's latch down; `start` waits for that. The
steps of the two threads come in any order: a step of the owner is a call or what lies between
two places where it waits, a step of the new thread is one statement of `runInThread`.

The owner may destruct the object while the new thread runs, and may call `start` and `join`
whenever it likes. `thread_handed_over` says that no order of steps lets the new thread touch
the object behind its destruction, and that only the owner's own misuse makes an assertion fail;
besides, a `pthread_create` that fails and an exception of `func_` end the process.
-/

namespace Zing.Base

open Zing.Lib

variable {F : Type}

structure Thread (F : Type) where
  started : Bool
  joined : Bool
  tid : Int
  func : F
  name : List UInt8
  /-- Only the owner calls `wait`. -/
  latch : CountDownLatch Unit

namespace Thread

open Detail

/-- `setDefaultName`, with the new value of `numCreated_`. -/
def setDefaultName (num : Int) (name : List UInt8) : List UInt8 :=
  if name.isEmpty then (text "Thread" ++ decimal num).take 31 else name

/-- The constructor. -/
def new (num : Int) (func : F) (n : List UInt8) : Thread F where
  started := false
  joined := false
  tid := 0
  func := func
  name := setDefaultName num n
  latch := .new 1

inductive Failure
  /-- In `start`: `!started_`. -/
  | notStarted
  /-- In `start`: `tid_ > 0`. -/
  | hasTid
  /-- In `join`: `started_`. -/
  | started
  /-- In `join`: `!joined_`. -/
  | notJoined
  /-- `start` exits since there is no new thread. -/
  | exit
  /-- An exception of `func_` ends the process. -/
  | uncaught
  /-- `runInThread` follows `tid_` or `latch_` into an object that has been destructed. -/
  | dangling
  /-- A thread is joined or detached that has been joined or detached before. -/
  | reclaimed
  /-- `--count_` has no value. -/
  | undefined (e : Undefined)
deriving DecidableEq, Repr

/-- What the owner is in. -/
inductive Owner
  | idle
  /-- In `start`, in front of `latch_.wait()`. -/
  | starting
  /-- In `start`, in `latch_.wait()`. -/
  | waiting
  /-- In `join`, in `pthread_join`. -/
  | joining
deriving DecidableEq, Repr

/-- How far the new thread is. -/
inductive Child
  | none
  /-- In front of `*tid_ = tid()`. -/
  | created
  /-- In front of `latch_->countDown()`. -/
  | stored
  /-- In front of `func_()`. -/
  | counted
  | inFunc
  /-- In front of `delete data`. -/
  | returned
  | finished
deriving DecidableEq, Repr

/-- What the system keeps of `pthreadId_`. -/
inductive Pthread
  | none
  | joinable
  | joined
  | detached
deriving DecidableEq, Repr

/-- What `start` hands to the new thread besides the pointers into the object. -/
structure ThreadData (F : Type) where
  func : F
  name : List UInt8

structure World (F : Type) where
  /-- Until it is destructed. -/
  object : Option (Thread F)
  owner : Owner
  child : Child
  pthread : Pthread
  /-- Until it is deleted. -/
  data : Option (ThreadData F)
  /-- `t_threadName` of the new thread. -/
  threadName : List UInt8
  /-- What `gettid` has returned in the new thread. -/
  gettid : Int
  /-- The functions that the new thread has called. -/
  calls : List F

inductive Action
  /-- The owner calls `start`; `created` says whether there is a new thread. -/
  | start (created : Bool)
  | wait
  /-- `wait()` of the condition variable returns. -/
  | resume
  /-- The owner wakes up without a notification. -/
  | wake
  | join
  | joinReturns
  | destruct
  /-- `gettid` returns `tid`. -/
  | storeTid (tid : Int)
  | countDown
  | call
  /-- `func_` returns, or it throws. -/
  | funcReturns
  | funcThrows
  | deleteData

/-! ## Steps of the owner -/

def World.start (w : World F) (thread : Thread F) (created : Bool) :
    Except Failure (World F) := do
  check (thread.started = false) .notStarted
  let thread := { thread with started := true }
  check (created = true) .exit
  return { w with
    object := some thread, owner := .starting, child := .created, pthread := .joinable,
    data := some ⟨thread.func, thread.name⟩ }

/-- The rest of `start`, as far as it gets. -/
def World.wait (w : World F) (thread : Thread F) : Except Failure (World F) := do
  if thread.latch.condition.Waiting () then
    return { w with object := some thread, owner := .waiting }
  else
    check (0 < thread.tid) .hasTid
    return { w with object := some thread, owner := .idle }

/-- `join` up to where `pthread_join` waits. -/
def World.join (w : World F) (thread : Thread F) : Except Failure (World F) := do
  check (thread.started = true) .started
  check (thread.joined = false) .notJoined
  let thread := { thread with joined := true }
  check (w.pthread = .joinable) .reclaimed
  return { w with object := some thread, owner := .joining }

def World.destruct (w : World F) (thread : Thread F) : Except Failure (World F) := do
  if thread.started && !thread.joined then
    check (w.pthread = .joinable) .reclaimed
    return { w with object := none, pthread := .detached }
  else
    return { w with object := none }

/-! ## Steps of the new thread -/

def World.storeTid (w : World F) (tid : Int) : Except Failure (World F) :=
  match w.object with
  | none => .error .dangling
  | some thread =>
      .ok { w with object := some { thread with tid := tid }, gettid := tid, child := .stored }

def World.countDown (w : World F) : Except Failure (World F) :=
  match w.object with
  | none => .error .dangling
  | some thread => do
      let latch ← nested Failure.undefined thread.latch.countDown
      return { w with object := some { thread with latch := latch }, child := .counted }

def World.call (w : World F) : Except Failure (World F) :=
  match w.data with
  | none => .error .dangling
  | some data =>
      .ok { w with
        threadName := if data.name.isEmpty then text "zingThread" else data.name
        child := .inFunc, calls := w.calls ++ [data.func] }

/-- The owner is in none of its calls, and the object is there. -/
def World.byOwner (w : World F) (owner : Owner) (f : Thread F → Except Failure (World F)) :
    Option (Except Failure (World F)) :=
  if w.owner = owner then w.object.map f else none

def step (w : World F) : Action → Option (Except Failure (World F))
  | .start created => w.byOwner .idle fun thread => w.start thread created
  | .wait => w.byOwner .starting fun thread =>
      w.wait { thread with latch := thread.latch.wait () }
  | .resume => (w.object.filter fun thread => thread.latch.condition.CanResume ()).map fun thread =>
      w.wait { thread with latch := thread.latch.resume () }
  | .wake => (w.object.filter fun thread => () ∈ thread.latch.condition.blocked).map fun thread =>
      .ok { w with
        object := some { thread with
          latch := { thread.latch with condition := thread.latch.condition.wake () } } }
  | .join => w.byOwner .idle fun thread => w.join thread
  | .joinReturns =>
      if w.owner = .joining ∧ w.child = .finished then
        some (.ok { w with owner := .idle, pthread := .joined })
      else none
  | .destruct => w.byOwner .idle fun thread => w.destruct thread
  | .storeTid tid => if w.child = .created ∧ 0 < tid then some (w.storeTid tid) else none
  | .countDown => if w.child = .stored then some w.countDown else none
  | .call => if w.child = .counted then some w.call else none
  | .funcReturns =>
      if w.child = .inFunc then
        some (.ok { w with threadName := text "finished", child := .returned })
      else none
  | .funcThrows => if w.child = .inFunc then some (.error .uncaught) else none
  | .deleteData =>
      if w.child = .returned then some (.ok { w with data := none, child := .finished }) else none

/-- A constructed object. -/
def constructed (num : Int) (func : F) (n : List UInt8) : World F where
  object := some (new num func n)
  owner := .idle
  child := .none
  pthread := .none
  data := none
  threadName := text "unknown"
  gettid := 0
  calls := []

/-- The runs of an object that is constructed with `func`. -/
def runs (func : F) : System (World F) Action Failure where
  init := fun w => ∃ num n, w = constructed num func n
  step := step

/-! ## What may fail -/

/-- The failures that are not those of the class. The owner's own are `start` a second time, and
`join` without `start` or a second time; an exception is that of `func_`; and where
`pthread_create` fails, which is no misuse of the owner, `start` ends the process. -/
inductive Misuse (w : World F) : Action → Failure → Prop
  | startAgain {thread : Thread F} {created : Bool} (ho : w.object = some thread)
      (hs : thread.started = true) : Misuse w (.start created) .notStarted
  | notCreated : Misuse w (.start false) .exit
  | joinUnstarted {thread : Thread F} (ho : w.object = some thread)
      (hs : thread.started = false) : Misuse w .join .started
  | joinAgain {thread : Thread F} (ho : w.object = some thread) (hj : thread.joined = true) :
      Misuse w .join .notJoined
  | throws : Misuse w .funcThrows .uncaught

/-- The new thread has stored its id. -/
def Child.hasTid : Child → Bool
  | .none | .created => false
  | _ => true

/-- The new thread has counted the latch down. -/
def Child.hasCounted : Child → Bool
  | .none | .created | .stored => false
  | _ => true

def Child.hasCalled : Child → Bool
  | .inFunc | .returned | .finished => true
  | _ => false

/-- What holds of the object as long as it is there. -/
structure Held (w : World F) (thread : Thread F) : Prop where
  started : thread.started = true ↔ w.child ≠ .none
  tid : w.child.hasTid = true → thread.tid = w.gettid
  latch : CountDownLatch.Inv 1 w.child.hasCounted.toNat thread.latch
  waiting : thread.latch.condition.Waiting () ↔ w.owner = .waiting
  joined : thread.joined = true ↔ w.owner = .joining ∨ w.pthread = .joined
  /-- Nobody else joins or detaches the new thread. -/
  pthread : w.child ≠ .none → w.pthread = .joinable ∨ w.pthread = .joined
  idle : w.child = .none → w.owner = .idle

/-- What holds between the steps; `func` is the function of the object. -/
structure Inv (func : F) (w : World F) : Prop where
  held : ∀ thread, w.object = some thread → thread.func = func ∧ Held w thread
  pthread : w.pthread = .none ↔ w.child = .none
  gettid : w.child.hasTid = true → 0 < w.gettid
  /-- Before it has counted down, the new thread has `start` waiting for it. -/
  starting : w.child ≠ .none → w.child.hasCounted = false →
    w.object.isSome = true ∧ (w.owner = .starting ∨ w.owner = .waiting)
  joining : w.owner = .joining → w.pthread = .joinable
  finished : w.pthread = .joined → w.child = .finished
  gone : w.object = none → w.owner = .idle ∧ w.pthread ≠ .joinable
  data : ∀ data, w.data = some data → data.func = func
  deleted : w.child ≠ .none → w.child ≠ .finished → w.data.isSome = true
  calls : w.calls = if w.child.hasCalled = true then [func] else []

variable {func : F} {w u : World F} {thread : Thread F} {a : Action}

theorem inv_constructed (num : Int) (func : F) (n : List UInt8) :
    Inv func (constructed num func n) where
  held := by
    rintro thread ⟨⟩
    exact ⟨rfl, by simp [new, constructed], by simp [constructed, Child.hasTid],
      CountDownLatch.inv_new (by decide), by simp [new, constructed, CountDownLatch.new,
        Condition.not_waiting_idle], by simp [new, constructed], by simp [constructed],
      fun _ => rfl⟩
  pthread := by simp [constructed]
  gettid := by simp [constructed, Child.hasTid]
  starting := by simp [constructed]
  joining := by simp [constructed]
  finished := by simp [constructed]
  gone := by simp [constructed]
  data := by simp [constructed]
  deleted := by simp [constructed]
  calls := rfl

/-! ## Steps of the owner -/

theorem ends_start (h : Inv func w) (ho : w.object = some thread) {created : Bool} :
    Ends (Inv func) (Misuse w (.start created)) (w.start thread created) := by
  obtain ⟨hfunc, hheld⟩ := h.held thread ho
  apply Ends.check
  · intro hs
    exact Misuse.startAgain ho (by simpa using hs)
  intro hs
  have hnone : w.child = .none := by
    by_contra hne
    rw [hheld.started.mpr hne] at hs
    cases hs
  have howner := hheld.idle hnone
  have hlatch := hheld.latch
  have hcalls := h.calls
  rw [hnone] at hlatch hcalls
  apply Ends.check
  · intro hc
    have hfalse : created = false := by simpa using hc
    subst hfalse
    exact Misuse.notCreated
  intro _
  have hpthread : w.pthread = .none := h.pthread.mpr hnone
  have hjoined := hheld.joined
  have hwaiting := hheld.waiting
  rw [howner, hpthread] at hjoined
  rw [howner] at hwaiting
  constructor
  case held =>
    rintro _ ⟨⟩
    refine ⟨hfunc, ?_⟩
    constructor
    case latch => exact hlatch
    case waiting => simpa using hwaiting
    case joined => simpa using hjoined
    all_goals simp [Child.hasTid]
  case data =>
    rintro _ ⟨⟩
    exact hfunc
  case calls => exact hcalls
  all_goals simp [Child.hasTid]

/-- The owner is in `start`, behind the creation of the new thread. -/
def Owner.inStart (owner : Owner) : Prop := owner = .starting ∨ owner = .waiting

theorem Owner.inStart.ne_idle {owner : Owner} (h : owner.inStart) : owner ≠ .idle := by
  rintro rfl
  rcases h with h | h
  · cases h
  · cases h

theorem Child.hasTid_of_hasCounted {child : Child} (h : child.hasCounted = true) :
    child.hasTid = true := by
  cases child with
  | none => cases h
  | created => cases h
  | stored => rfl
  | counted => rfl
  | inFunc => rfl
  | returned => rfl
  | finished => rfl

/-- Outside of `start`, the new thread is behind the latch. -/
theorem Inv.counted_of_idle (h : Inv func w) (hown : w.owner = .idle) (hchild : w.child ≠ .none) :
    w.child.hasCounted = true := by
  by_contra hnot
  obtain ⟨-, ho | ho⟩ := h.starting hchild (Bool.eq_false_of_not_eq_true hnot)
  · rw [hown] at ho
    cases ho
  · rw [hown] at ho
    cases ho

/-- What has been started and not joined can be joined or detached. -/
theorem Held.joinable (h : Held w thread) (hs : thread.started = true)
    (hj : thread.joined = false) : w.pthread = .joinable := by
  rcases h.pthread (h.started.mp hs) with hp | hp
  · exact hp
  · rw [h.joined.mpr (Or.inr hp)] at hj
    cases hj

/-- `start` returns when the latch is open, and then the new thread has stored its id. -/
theorem ends_wait (h : Inv func w) (ho : w.object = some thread) (hown : w.owner.inStart)
    {latch : CountDownLatch Unit}
    (hlatch : CountDownLatch.Inv 1 w.child.hasCounted.toNat latch)
    (hopen : ¬ latch.condition.Waiting () ↔ thread.latch.count ≤ 0) :
    Ends (Inv func) (fun _ => False) (w.wait { thread with latch := latch }) := by
  obtain ⟨hfunc, hheld⟩ := h.held thread ho
  have hne : w.owner ≠ .joining := by
    rcases hown with hw | hw
    · simp [hw]
    · simp [hw]
  have hchild : w.child ≠ .none := fun hnone => hown.ne_idle (hheld.idle hnone)
  have hjoined : thread.joined = true ↔ w.pthread = .joined := by
    rw [hheld.joined, or_iff_right hne]
  unfold World.wait
  split
  · case isTrue hw =>
      refine { h with
        held := ?_
        starting := fun _ _ => ⟨rfl, Or.inr rfl⟩
        joining := fun hj => by cases hj
        gone := fun hg => by cases hg }
      rintro _ ⟨⟩
      refine ⟨hfunc, hheld.started, hheld.tid, hlatch, iff_of_true hw rfl, ?_, hheld.pthread,
        fun hnone => absurd hnone hchild⟩
      simpa using hjoined
  · case isFalse hw =>
      have hcounted : w.child.hasCounted = true := by
        by_contra hnot
        have hclosed := hopen.mp hw
        rw [hheld.latch.count_eq, Bool.eq_false_of_not_eq_true hnot] at hclosed
        exact absurd hclosed (by decide)
      have htid := Child.hasTid_of_hasCounted hcounted
      apply Ends.check
      · intro hpos
        apply hpos
        show 0 < thread.tid
        rw [hheld.tid htid]
        exact h.gettid htid
      intro _
      refine { h with
        held := ?_
        starting := fun _ hnot => absurd hcounted (Bool.not_eq_true _ ▸ hnot)
        joining := fun hj => by cases hj
        gone := fun hg => by cases hg }
      rintro _ ⟨⟩
      refine ⟨hfunc, hheld.started, hheld.tid, hlatch, iff_of_false hw (by simp), ?_,
        hheld.pthread, fun hnone => absurd hnone hchild⟩
      simpa using hjoined

theorem ends_join (h : Inv func w) (ho : w.object = some thread) (hown : w.owner = .idle) :
    Ends (Inv func) (Misuse w .join) (w.join thread) := by
  obtain ⟨hfunc, hheld⟩ := h.held thread ho
  apply Ends.check
  · intro hs
    exact Misuse.joinUnstarted ho (by simpa using hs)
  intro hs
  apply Ends.check
  · intro hj
    exact Misuse.joinAgain ho (by simpa using hj)
  intro hj
  have hchild := hheld.started.mp hs
  have hjoinable := hheld.joinable hs hj
  apply Ends.check
  · intro hp
    exact absurd hjoinable hp
  intro _
  have hcounted := h.counted_of_idle hown hchild
  have hwaiting := hheld.waiting
  rw [hown] at hwaiting
  refine { h with
    held := ?_
    starting := fun _ hnot => absurd hcounted (Bool.not_eq_true _ ▸ hnot)
    joining := fun _ => hjoinable
    gone := fun hg => by cases hg }
  rintro _ ⟨⟩
  refine ⟨hfunc, hheld.started, hheld.tid, hheld.latch, ?_, iff_of_true rfl (Or.inl rfl),
    hheld.pthread, fun hnone => absurd hnone hchild⟩
  simpa using hwaiting

/-- The new thread is detached unless it has been joined. -/
theorem ends_destruct (h : Inv func w) (ho : w.object = some thread) (hown : w.owner = .idle) :
    Ends (Inv func) (fun _ => False) (w.destruct thread) := by
  obtain ⟨-, hheld⟩ := h.held thread ho
  have hcounted : w.child ≠ .none → ¬ w.child.hasCounted = false := by
    intro hchild
    rw [h.counted_of_idle hown hchild]
    simp
  have hjoining : w.owner ≠ .joining := by
    rw [hown]
    simp
  unfold World.destruct
  split
  · case isTrue hs =>
      simp only [Bool.and_eq_true, Bool.not_eq_true'] at hs
      have hjoinable := hheld.joinable hs.1 hs.2
      apply Ends.check
      · intro hp
        exact absurd hjoinable hp
      intro _
      exact { h with
        held := fun _ hg => by cases hg
        pthread := iff_of_false (by simp) (hheld.started.mp hs.1)
        starting := fun hc hnot => absurd hnot (hcounted hc)
        joining := fun hj => absurd hj hjoining
        finished := fun hp => by cases hp
        gone := fun _ => ⟨hown, by simp⟩ }
  · case isFalse hs =>
      have hreclaimed : w.pthread ≠ .joinable := by
        intro hp
        apply hs
        have hchild : w.child ≠ .none := by
          rw [Ne, ← h.pthread, hp]
          simp
        have hj : thread.joined ≠ true := by
          rw [Ne, hheld.joined, hown, hp]
          simp
        rw [hheld.started.mpr hchild, Bool.eq_false_of_not_eq_true hj]
        rfl
      exact { h with
        held := fun _ hg => by cases hg
        starting := fun hc hnot => absurd hnot (hcounted hc)
        gone := fun _ => ⟨hown, hreclaimed⟩ }

/-- `pthread_join` returns. -/
theorem Inv.joinReturns (h : Inv func w) (hown : w.owner = .joining)
    (hchild : w.child = .finished) :
    Inv func { w with owner := .idle, pthread := .joined } := by
  refine { h with
    held := ?_
    pthread := iff_of_false (by simp) (by rw [hchild]; simp)
    starting := fun _ hnot => by rw [show w.child = .finished from hchild] at hnot; cases hnot
    joining := fun hj => by cases hj
    finished := fun _ => hchild
    gone := fun _ => ⟨rfl, by simp⟩ }
  intro thread ho
  obtain ⟨hfunc, hheld⟩ := h.held thread ho
  have hwaiting := hheld.waiting
  rw [hown] at hwaiting
  refine ⟨hfunc, hheld.started, hheld.tid, hheld.latch, ?_, ?_, fun _ => Or.inr rfl, fun _ => rfl⟩
  · simpa using hwaiting
  · exact iff_of_true (hheld.joined.mpr (Or.inl hown)) (Or.inr rfl)

/-- The owner wakes up, and has to test the count again. -/
theorem Inv.wake (h : Inv func w) (ho : w.object = some thread)
    (hb : () ∈ thread.latch.condition.blocked) :
    Inv func { w with
      object := some { thread with
        latch := { thread.latch with condition := thread.latch.condition.wake () } } } := by
  obtain ⟨hfunc, hheld⟩ := h.held thread ho
  refine { h with
    held := ?_
    starting := fun hc hnot => ⟨rfl, (h.starting hc hnot).2⟩
    gone := fun hg => by cases hg }
  rintro _ ⟨⟩
  refine ⟨hfunc, hheld.started, hheld.tid, hheld.latch.wake, ?_, hheld.joined, hheld.pthread,
    hheld.idle⟩
  exact (Condition.waiting_wake hb).trans hheld.waiting

/-! ## Steps of the new thread -/

/-- As long as the new thread needs the object, `start` has not returned. -/
theorem Inv.object_of_starting (h : Inv func w) (hchild : w.child ≠ .none)
    (hcounted : w.child.hasCounted = false) :
    ∃ thread, w.object = some thread ∧ w.owner.inStart := by
  obtain ⟨hsome, hown⟩ := h.starting hchild hcounted
  obtain ⟨thread, ho⟩ := Option.isSome_iff_exists.mp hsome
  exact ⟨thread, ho, hown⟩

theorem ends_storeTid (h : Inv func w) (hchild : w.child = .created) {tid : Int} (htid : 0 < tid) :
    Ends (Inv func) (fun _ => False) (w.storeTid tid) := by
  obtain ⟨thread, ho, hown⟩ := h.object_of_starting (by rw [hchild]; simp) (by rw [hchild]; rfl)
  obtain ⟨hfunc, hheld⟩ := h.held thread ho
  unfold World.storeTid
  rw [ho]
  have hstarted : thread.started = true := hheld.started.mpr (by rw [hchild]; simp)
  have hlatch := hheld.latch
  have hcalls := h.calls
  rw [hchild] at hlatch hcalls
  refine { h with
    held := ?_
    pthread := iff_of_false (fun hp => ?_) (by simp)
    gettid := fun _ => htid
    starting := fun _ _ => ⟨rfl, hown⟩
    finished := fun hp => ?_
    gone := fun hg => by cases hg
    deleted := fun _ _ => h.deleted (by rw [hchild]; simp) (by rw [hchild]; simp)
    calls := hcalls }
  · rintro _ ⟨⟩
    exact ⟨hfunc, iff_of_true hstarted (by simp), fun _ => rfl, hlatch, hheld.waiting,
      hheld.joined, fun _ => hheld.pthread (by rw [hchild]; simp), fun hnone => by cases hnone⟩
  · rw [h.pthread.mp hp] at hchild
    cases hchild
  · rw [h.finished hp] at hchild
    cases hchild

theorem ends_countDown (h : Inv func w) (hchild : w.child = .stored) :
    Ends (Inv func) (fun _ => False) w.countDown := by
  obtain ⟨thread, ho, hown⟩ := h.object_of_starting (by rw [hchild]; simp) (by rw [hchild]; rfl)
  obtain ⟨hfunc, hheld⟩ := h.held thread ho
  have hlatch := hheld.latch
  have htid := hheld.tid
  have hcalls := h.calls
  rw [hchild] at hlatch htid hcalls
  have hcount : thread.latch.count = 1 := hlatch.count_eq
  have hok := CountDownLatch.countDown_eq thread.latch (by rw [hcount]; decide)
  unfold World.countDown
  rw [ho]
  show Ends _ _ (nested _ thread.latch.countDown >>= _)
  rw [hok, nested_ok, ok_bind]
  refine { h with
    held := ?_
    pthread := iff_of_false (fun hp => ?_) (by simp)
    gettid := fun _ => h.gettid (by rw [hchild]; rfl)
    starting := fun _ hnot => by cases hnot
    finished := fun hp => ?_
    gone := fun hg => by cases hg
    deleted := fun _ _ => h.deleted (by rw [hchild]; simp) (by rw [hchild]; simp)
    calls := hcalls }
  · rintro _ ⟨⟩
    refine ⟨hfunc, iff_of_true (hheld.started.mpr (by rw [hchild]; simp)) (by simp),
      fun _ => htid rfl, hlatch.countDown hok, ?_, hheld.joined,
      fun _ => hheld.pthread (by rw [hchild]; simp), fun hnone => by cases hnone⟩
    show (if _ then _ else _ : Condition Unit).Waiting () ↔ _
    rw [if_pos (by rw [hcount]; rfl), Condition.waiting_notifyAll]
    exact hheld.waiting
  · rw [h.pthread.mp hp] at hchild
    cases hchild
  · rw [h.finished hp] at hchild
    cases hchild

/-- A step behind the latch, which leaves the object alone. -/
theorem Inv.advance (h : Inv func w) (hcounted : w.child.hasCounted = true)
    (hunfinished : w.child ≠ .finished) {child : Child} (hchild : child.hasCounted = true)
    {data : Option (ThreadData F)} (threadName : List UInt8) {calls : List F}
    (hdata : ∀ d, data = some d → d.func = func)
    (hdeleted : child ≠ .finished → data.isSome = true)
    (hcalls : calls = if child.hasCalled = true then [func] else []) :
    Inv func { w with
      child := child, data := data, threadName := threadName, calls := calls } := by
  have hold : w.child ≠ .none := by
    intro hnone
    rw [hnone] at hcounted
    cases hcounted
  have hnew : child ≠ .none := by
    rintro rfl
    cases hchild
  refine { h with
    held := ?_
    pthread := iff_of_false (fun hp => hold (h.pthread.mp hp)) hnew
    gettid := fun _ => h.gettid (Child.hasTid_of_hasCounted hcounted)
    starting := fun _ hnot => absurd hchild (Bool.not_eq_true _ ▸ hnot)
    finished := fun hp => absurd (h.finished hp) hunfinished
    data := hdata
    deleted := fun _ hf => hdeleted hf
    calls := hcalls }
  intro thread ho
  obtain ⟨hfunc, hheld⟩ := h.held thread ho
  refine ⟨hfunc, iff_of_true (hheld.started.mpr hold) hnew, ?_, ?_, hheld.waiting,
    hheld.joined, fun _ => hheld.pthread hold, fun hnone => absurd hnone hnew⟩
  · exact fun _ => hheld.tid (Child.hasTid_of_hasCounted hcounted)
  · show CountDownLatch.Inv 1 child.hasCounted.toNat thread.latch
    rw [hchild, ← hcounted]
    exact hheld.latch

theorem ends_call (h : Inv func w) (hchild : w.child = .counted) :
    Ends (Inv func) (fun _ => False) w.call := by
  obtain ⟨data, hd⟩ := Option.isSome_iff_exists.mp
    (h.deleted (by rw [hchild]; simp) (by rw [hchild]; simp))
  have hcalls := h.calls
  rw [hchild] at hcalls
  unfold World.call
  rw [hd]
  exact h.advance (by rw [hchild]; rfl) (by rw [hchild]; simp) rfl _ (hd ▸ h.data)
    (fun _ => rfl) (by rw [hcalls, h.data data hd]; rfl)

/-! ## Runs -/

theorem of_byOwner {owner : Owner} {f : Thread F → Except Failure (World F)}
    {r : Except Failure (World F)} (hs : w.byOwner owner f = some r) :
    ∃ thread, w.object = some thread ∧ w.owner = owner ∧ f thread = r := by
  unfold World.byOwner at hs
  split at hs
  · case isTrue hown =>
      obtain ⟨thread, ho, hf⟩ := Option.map_eq_some_iff.mp hs
      exact ⟨thread, ho, hown, hf⟩
  · cases hs

theorem of_filter {p : Thread F → Prop} [DecidablePred p]
    {f : Thread F → Except Failure (World F)} {r : Except Failure (World F)}
    (hs : (w.object.filter fun thread => p thread).map f = some r) :
    ∃ thread, w.object = some thread ∧ p thread ∧ f thread = r := by
  obtain ⟨thread, ho, hf⟩ := Option.map_eq_some_iff.mp hs
  rw [Option.filter_eq_some_iff, decide_eq_true_iff] at ho
  exact ⟨thread, ho.1, ho.2, hf⟩

theorem Ends.mono_error {I : World F → Prop} {E : Failure → Prop} {x : Except Failure (World F)}
    (h : Ends I (fun _ => False) x) : Ends I E x :=
  h.mono (fun _ hi => hi) fun _ hf => hf.elim

theorem ends_step (h : Inv func w) {r : Except Failure (World F)} (hs : step w a = some r) :
    Ends (Inv func) (Misuse w a) r := by
  cases a with
  | start created =>
      obtain ⟨thread, ho, -, rfl⟩ := of_byOwner hs
      exact ends_start h ho
  | wait =>
      obtain ⟨thread, ho, hown, rfl⟩ := of_byOwner hs
      obtain ⟨-, hheld⟩ := h.held thread ho
      have hfree : ¬ thread.latch.condition.Waiting () := by
        rw [hheld.waiting, hown]
        simp
      exact Ends.mono_error (ends_wait h ho (Or.inl hown) hheld.latch.wait
        (CountDownLatch.waiting_wait_iff hfree))
  | resume =>
      obtain ⟨thread, ho, hcan, rfl⟩ := of_filter hs
      obtain ⟨-, hheld⟩ := h.held thread ho
      have hown := hheld.waiting.mp (Condition.waiting_of_canResume hcan)
      exact Ends.mono_error (ends_wait h ho (Or.inr hown) hheld.latch.resume
        (CountDownLatch.waiting_resume_iff hcan))
  | wake =>
      obtain ⟨thread, ho, hb, rfl⟩ := of_filter hs
      exact h.wake ho hb
  | join =>
      obtain ⟨thread, ho, hown, rfl⟩ := of_byOwner hs
      exact ends_join h ho hown
  | joinReturns =>
      obtain ⟨⟨hown, hchild⟩, rfl⟩ := of_guard hs
      exact h.joinReturns hown hchild
  | destruct =>
      obtain ⟨thread, ho, hown, rfl⟩ := of_byOwner hs
      exact Ends.mono_error (ends_destruct h ho hown)
  | storeTid tid =>
      obtain ⟨⟨hchild, htid⟩, rfl⟩ := of_guard hs
      exact Ends.mono_error (ends_storeTid h hchild htid)
  | countDown =>
      obtain ⟨hchild, rfl⟩ := of_guard hs
      exact Ends.mono_error (ends_countDown h hchild)
  | call =>
      obtain ⟨hchild, rfl⟩ := of_guard hs
      exact Ends.mono_error (ends_call h hchild)
  | funcReturns =>
      obtain ⟨hchild, rfl⟩ := of_guard hs
      have hdata := h.deleted (by rw [hchild]; simp) (by rw [hchild]; simp)
      have hcalls := h.calls
      rw [hchild] at hcalls
      exact h.advance (by rw [hchild]; rfl) (by rw [hchild]; simp) rfl _ h.data (fun _ => hdata)
        hcalls
  | funcThrows =>
      obtain ⟨-, rfl⟩ := of_guard hs
      exact Misuse.throws
  | deleteData =>
      obtain ⟨hchild, rfl⟩ := of_guard hs
      have hcalls := h.calls
      rw [hchild] at hcalls
      exact h.advance (by rw [hchild]; rfl) (by rw [hchild]; simp) rfl _
        (fun _ hd => by cases hd) (fun hf => absurd rfl hf) hcalls

theorem Inv.next (h : Inv func w) (hn : (runs func).Next w a u) : Inv func u :=
  ends_step h (r := .ok u) hn

theorem reachable_inv {P : World F → Action → Prop} (h : (runs func).Reachable P w) :
    Inv func w := by
  refine h.invariant ?_ ?_
  · rintro _ ⟨num, n, rfl⟩
    exact inv_constructed num func n
  · intro w a u hinv _ hn
    exact hinv.next hn

/-- The steps of `start` behind the creation of the new thread, and those of the new thread in
front of `func_()`. -/
def handsOver : Action → Prop
  | .wait | .resume | .storeTid _ | .countDown => True
  | _ => False

theorem Inv.object_of_inStart (h : Inv func w) (hown : w.owner.inStart) :
    ∃ thread, w.object = some thread := by
  cases ho : w.object with
  | some thread => exact ⟨thread, rfl⟩
  | none => exact absurd (h.gone ho).1 hown.ne_idle

/-- With the latch open, the next step of the owner ends `start`. -/
theorem Inv.start_returns (h : Inv func w) (hown : w.owner.inStart)
    (hcounted : w.child.hasCounted = true) :
    ∃ a u, handsOver a ∧ (runs func).Next w a u ∧ u.owner = .idle := by
  obtain ⟨thread, ho⟩ := h.object_of_inStart hown
  obtain ⟨-, hheld⟩ := h.held thread ho
  have hopen : thread.latch.count ≤ 0 := by
    rw [hheld.latch.count_eq, hcounted]
    decide
  have htid : 0 < thread.tid := by
    have hstored := Child.hasTid_of_hasCounted hcounted
    rw [hheld.tid hstored]
    exact h.gettid hstored
  have hreturns : ∀ latch : CountDownLatch Unit, ¬ latch.condition.Waiting () →
      w.wait { thread with latch := latch } =
        .ok { w with object := some { thread with latch := latch }, owner := .idle } := by
    intro latch hfree
    unfold World.wait
    rw [if_neg hfree, check_bind htid]
    rfl
  rcases hown with hw | hw
  · have hfree : ¬ thread.latch.condition.Waiting () := by
      rw [hheld.waiting, hw]
      simp
    refine ⟨.wait, { w with
      object := some { thread with latch := thread.latch.wait () }, owner := .idle },
      trivial, ?_, rfl⟩
    have hbegin := hreturns _ ((CountDownLatch.waiting_wait_iff hfree).mpr hopen)
    show step w .wait = some (.ok _)
    rw [step, World.byOwner, if_pos hw, ho, Option.map_some, hbegin]
  · have hcan : thread.latch.condition.CanResume () := by
      rcases hheld.waiting.mpr hw with hb | hc
      · rw [hheld.latch.opened hopen] at hb
        exact absurd hb (Finset.notMem_empty ())
      · exact hc
    refine ⟨.resume, { w with
      object := some { thread with latch := thread.latch.resume () }, owner := .idle },
      trivial, ?_, rfl⟩
    have hend := hreturns _ ((CountDownLatch.waiting_resume_iff hcan).mpr hopen)
    show step w .resume = some (.ok _)
    have hfilter : (some thread).filter (fun thread : Thread F =>
        decide (thread.latch.condition.CanResume ())) = some thread :=
      Option.filter_some_pos (decide_eq_true hcan)
    rw [step, ho, hfilter, Option.map_some, hend]

theorem Inv.countDown_next (h : Inv func w) (hchild : w.child = .stored) :
    ∃ u, (runs func).Next w .countDown u ∧ u.owner = w.owner ∧ u.child = .counted := by
  obtain ⟨thread, ho, -⟩ := h.object_of_starting (by rw [hchild]; simp) (by rw [hchild]; rfl)
  have hlatch := (h.held thread ho).2.latch
  rw [hchild] at hlatch
  have hcount : thread.latch.count = 1 := hlatch.count_eq
  have hok := CountDownLatch.countDown_eq thread.latch (by rw [hcount]; decide)
  have hstep : step w .countDown = some w.countDown := if_pos hchild
  unfold World.countDown at hstep
  simp only [ho, hok, nested_ok, ok_bind] at hstep
  exact ⟨_, hstep, rfl, rfl⟩

theorem Inv.storeTid_next (h : Inv func w) (hchild : w.child = .created) {tid : Int}
    (htid : 0 < tid) :
    ∃ u, (runs func).Next w (.storeTid tid) u ∧ u.owner = w.owner ∧ u.child = .stored := by
  obtain ⟨thread, ho, -⟩ := h.object_of_starting (by rw [hchild]; simp) (by rw [hchild]; rfl)
  have hstep : step w (.storeTid tid) = some (w.storeTid tid) := if_pos ⟨hchild, htid⟩
  unfold World.storeTid at hstep
  simp only [ho] at hstep
  exact ⟨_, hstep, rfl, rfl⟩

theorem Inv.start_ends_of_counted (h : Inv func w) (hown : w.owner.inStart)
    (hcounted : w.child.hasCounted = true) :
    ∃ as u, (runs func).Run (fun _ a => handsOver a) w as u ∧ u.owner = .idle := by
  obtain ⟨a, u, ha, hn, hu⟩ := h.start_returns hown hcounted
  exact ⟨[a], u, System.Run.single ha hn, hu⟩

theorem Inv.start_ends_of_stored (h : Inv func w) (hown : w.owner.inStart)
    (hchild : w.child = .stored) :
    ∃ as u, (runs func).Run (fun _ a => handsOver a) w as u ∧ u.owner = .idle := by
  obtain ⟨v, hn, hsame, hcounted⟩ := h.countDown_next hchild
  obtain ⟨as, u, hr, hu⟩ := (h.next hn).start_ends_of_counted (by rw [hsame]; exact hown)
    (by rw [hcounted]; rfl)
  exact ⟨.countDown :: as, u, System.Run.cons trivial hn hr, hu⟩

/-- The new thread reaches the latch by itself, and `start` returns behind it. -/
theorem Inv.start_ends (h : Inv func w) (hown : w.owner.inStart) :
    ∃ as u, (runs func).Run (fun _ a => handsOver a) w as u ∧ u.owner = .idle := by
  obtain ⟨thread, ho⟩ := h.object_of_inStart hown
  cases hchild : w.child with
  | none => exact absurd ((h.held thread ho).2.idle hchild) hown.ne_idle
  | created =>
      obtain ⟨v, hn, hsame, hstored⟩ := h.storeTid_next hchild (show (0 : Int) < 1 by decide)
      obtain ⟨as, u, hr, hu⟩ :=
        (h.next hn).start_ends_of_stored (by rw [hsame]; exact hown) hstored
      exact ⟨.storeTid 1 :: as, u, System.Run.cons trivial hn hr, hu⟩
  | stored => exact h.start_ends_of_stored hown hchild
  | counted => exact h.start_ends_of_counted hown (by rw [hchild]; rfl)
  | inFunc => exact h.start_ends_of_counted hown (by rw [hchild]; rfl)
  | returned => exact h.start_ends_of_counted hown (by rw [hchild]; rfl)
  | finished => exact h.start_ends_of_counted hown (by rw [hchild]; rfl)

/-- In every run of a `Thread`, whatever its owner calls and whenever:

* only the owner's misuse makes an assertion fail, and only a failed `pthread_create` or an
  exception of `func_` ends the process; the new thread finds the object there whenever it needs
  it, and no thread is joined or detached twice;
* `start` can be ended by the steps that lead to it, without `func_`, and behind it `tid_` is the
  id of the new thread;
* behind the destruction the new thread has been joined or detached, and behind `join` it has
  called `func_`, once, and is over. -/
theorem thread_handed_over (func : F) (w : World F) (h : (runs func).Reachable System.always w) :
    (∀ a e, (runs func).Fails w a e → Misuse w a e) ∧
    (w.owner.inStart →
      ∃ as u, (runs func).Run (fun _ a => handsOver a) w as u ∧ u.owner = .idle) ∧
    (∀ thread, w.object = some thread → thread.started = true → w.owner = .idle →
      thread.tid = w.gettid ∧ 0 < thread.tid) ∧
    (w.object = none → w.child ≠ .none → w.pthread = .joined ∨ w.pthread = .detached) ∧
    (w.pthread = .joined → w.child = .finished ∧ w.calls = [func]) := by
  have hinv := reachable_inv h
  refine ⟨fun a e hf => ends_step hinv (r := .error e) hf, hinv.start_ends, ?_, ?_, ?_⟩
  · intro thread ho hs hown
    obtain ⟨-, hheld⟩ := hinv.held thread ho
    have hstored := Child.hasTid_of_hasCounted
      (hinv.counted_of_idle hown (hheld.started.mp hs))
    rw [hheld.tid hstored]
    exact ⟨rfl, hinv.gettid hstored⟩
  · intro ho hchild
    have hjoinable := (hinv.gone ho).2
    have hnone : w.pthread ≠ .none := fun hp => hchild (hinv.pthread.mp hp)
    cases hp : w.pthread with
    | none => exact absurd hp hnone
    | joinable => exact absurd hp hjoinable
    | joined => exact Or.inl rfl
    | detached => exact Or.inr rfl
  · intro hp
    have hfinished := hinv.finished hp
    have hcalls := hinv.calls
    rw [hfinished] at hcalls
    exact ⟨hfinished, hcalls⟩

/-- The owner destructs the object while the new thread is in front of `func_()`. -/
def early : List Action := [.start true, .storeTid 7, .wait, .wake, .countDown, .resume, .destruct]

/-- The new thread goes on without the object. -/
theorem thread_handed_over_sample : ∃ w : World Char, (runs 'f').Reachable System.always w ∧
    w.object = none ∧ w.child = .counted ∧ (w.pthread = .joined ∨ w.pthread = .detached) ∧
      ∀ a e, (runs 'f').Fails w a e → Misuse w a e := by
  have hrun : ∃ w : World Char, w.object = none ∧ w.child = .counted ∧
      (runs 'f').exec (constructed 1 'f' []) early = some (.ok w) := ⟨_, rfl, rfl, rfl⟩
  obtain ⟨w, ho, hchild, hexec⟩ := hrun
  have hreach : (runs 'f').Reachable System.always w :=
    ⟨_, _, ⟨1, [], rfl⟩, System.run_of_exec hexec⟩
  obtain ⟨hfails, -, -, hgone, -⟩ := thread_handed_over 'f' w hreach
  exact ⟨w, hreach, ho, hchild, hgone ho (by rw [hchild]; simp), hfails⟩

end Thread

end Zing.Base
