import Mathlib.Data.Finset.Insert
import Zing.Lib.Condition
import Zing.Lib.System

set_option autoImplicit false

/-! # The holder of a `MutexLock`

`MutexLock` keeps in `holder_` which thread has its mutex. `holder_` is set and cleared by
three pairs of calls around the mutex: by a `MutexLockGuard`, by `lock()` and `unlock()`, and by
the `UnassignGuard` in a wait for a condition variable, which releases the mutex and takes it
again.

An action is one access to the mutex or to `holder_`, so that the steps of different threads
mix in every way. Threads start and end, and the system may give the id of a thread that has
ended to a new one; a thread does not end while it has the mutex. There are any number of
condition variables.

`holder_tracks` says for every run that `holder_` is the id of the thread that is in a section
and does not wait, and that it is 0 when no thread has the mutex.
-/

namespace Zing.Base

open Zing.Lib

namespace MutexLock

/-- What a section was entered by. -/
inductive Entry
  /-- `MutexLockGuard` -/
  | guard
  /-- `lock()` -/
  | lock
  deriving DecidableEq, Repr

/-- How far a thread is. -/
inductive Pc (C : Type)
  | outside
  /-- It has `mutex_`, and is in front of `assignHolder()`. -/
  | locked (e : Entry)
  | inside (e : Entry)
  /-- Behind `unassignHolder()`, in front of the release of `mutex_`. -/
  | unassigned (e : Entry)
  /-- In a wait, behind the constructor of `UnassignGuard`. -/
  | waitBegins (c : C)
  /-- In `cond_.wait`, without `mutex_`. -/
  | waits (c : C)
  /-- Behind `cond_.wait`, in front of the destructor of `UnassignGuard`. -/
  | waitEnds (c : C)
  deriving DecidableEq, Repr

inductive Assertion
  /-- In `assertLocked`. -/
  | isLockedByThisThread
  /-- In the destructor. -/
  | noHolder
  deriving DecidableEq, Repr

structure State (T C : Type) where
  /-- The thread that has `mutex_`. -/
  mutex : Option T
  holder : Int
  pc : T → Pc C
  cond : C → Condition T
  /-- The ids of the threads that run. -/
  gettid : T → Option Int
  used : Finset Int
  /-- `t_cachedTid` of each thread. -/
  cachedTid : T → Int

inductive Action (T C : Type)
  /-- A thread starts, and the system gives it an id. -/
  | start (t : T) (id : Int)
  | exit (t : T)
  /-- `lock_` of a guard, or `mutex_.lock()`. -/
  | acquire (t : T) (e : Entry)
  | assignHolder (t : T)
  | unassignHolder (t : T)
  /-- The destructor of `lock_`, or `mutex_.unlock()`. -/
  | release (t : T)
  /-- `wait` or `waitForSeconds`, up to `cond_.wait`. -/
  | beginWait (t : T) (c : C)
  /-- `cond_.wait` releases the mutex. -/
  | block (t : T)
  | notify (t : T) (c : C) (choice : Option T)
  | notifyAll (t : T) (c : C)
  /-- `t` wakes up without a notification, or since the time is over. -/
  | wake (t : T) (c : C)
  /-- `cond_.wait` has the mutex again. -/
  | reacquire (t : T)
  | endWait (t : T)
  | isLockedByThisThread (t : T)
  | assertLocked (t : T)

variable {T C : Type} [DecidableEq T]

/-! ## The functions -/

/-- `CurrentThread::tid()` -/
def State.tid (s : State T C) (t : T) : State T C × Int :=
  if s.cachedTid t = 0 then
    let id := (s.gettid t).getD 0
    ({ s with cachedTid := Function.update s.cachedTid t id }, id)
  else (s, s.cachedTid t)

def State.assignHolder (s : State T C) (t : T) : State T C :=
  let (s, id) := s.tid t
  { s with holder := id }

def State.unassignHolder (s : State T C) : State T C := { s with holder := 0 }

def State.isLockedByThisThread (s : State T C) (t : T) : State T C × Bool :=
  let (s, id) := s.tid t
  (s, s.holder == id)

def State.assertLocked (s : State T C) (t : T) : Except Assertion (State T C) := do
  let (s, locked) := s.isLockedByThisThread t
  check (locked = true) .isLockedByThisThread
  return s

/-- `~MutexLock()` -/
def State.destructor (s : State T C) : Except Assertion Unit := check (s.holder = 0) .noHolder

/-- The thread goes on to `p`. -/
def State.goto (s : State T C) (t : T) (p : Pc C) : State T C :=
  { s with pc := Function.update s.pc t p }

section

variable [DecidableEq C]

def State.setCond (s : State T C) (c : C) (x : Condition T) : State T C :=
  { s with cond := Function.update s.cond c x }

def step (s : State T C) : Action T C → Option (Except Assertion (State T C))
  | .start t id =>
      if s.gettid t = none ∧ 0 < id ∧ id ∉ s.used then
        some (.ok { s with
          gettid := Function.update s.gettid t (some id)
          used := insert id s.used
          cachedTid := Function.update s.cachedTid t 0 })
      else none
  | .exit t =>
      match s.gettid t with
      | some id =>
          if s.pc t = .outside then
            some (.ok { s with
              gettid := Function.update s.gettid t none, used := s.used.erase id })
          else none
      | none => none
  | .acquire t e =>
      if s.pc t = .outside ∧ (s.gettid t).isSome ∧ s.mutex = none then
        some (.ok ({ s with mutex := some t }.goto t (.locked e)))
      else none
  | .assignHolder t =>
      match s.pc t with
      | .locked e => some (.ok ((s.assignHolder t).goto t (.inside e)))
      | _ => none
  | .unassignHolder t =>
      match s.pc t with
      | .inside e => some (.ok (s.unassignHolder.goto t (.unassigned e)))
      | _ => none
  | .release t =>
      match s.pc t with
      | .unassigned _ => some (.ok ({ s with mutex := none }.goto t .outside))
      | _ => none
  | .beginWait t c =>
      -- a wait takes a guard
      if s.pc t = .inside .guard then some (.ok (s.unassignHolder.goto t (.waitBegins c)))
      else none
  | .block t =>
      match s.pc t with
      | .waitBegins c =>
          some (.ok (({ s with mutex := none }.setCond c ((s.cond c).wait t)).goto t (.waits c)))
      | _ => none
  | .notify t c choice =>
      if (s.gettid t).isSome ∧ (s.cond c).CanNotify choice then
        some (.ok (s.setCond c ((s.cond c).notify choice)))
      else none
  | .notifyAll t c =>
      if (s.gettid t).isSome then some (.ok (s.setCond c (s.cond c).notifyAll)) else none
  | .wake t c =>
      if t ∈ (s.cond c).blocked then some (.ok (s.setCond c ((s.cond c).wake t))) else none
  | .reacquire t =>
      match s.pc t with
      | .waits c =>
          if (s.cond c).CanResume t ∧ s.mutex = none then
            some (.ok (({ s with mutex := some t }.setCond c ((s.cond c).resume t)).goto t
              (.waitEnds c)))
          else none
      | _ => none
  | .endWait t =>
      match s.pc t with
      | .waitEnds _ => some (.ok ((s.assignHolder t).goto t (.inside .guard)))
      | _ => none
  | .isLockedByThisThread t =>
      if (s.gettid t).isSome then some (.ok (s.isLockedByThisThread t).1) else none
  | .assertLocked t => if (s.gettid t).isSome then some (s.assertLocked t) else none

end

/-- A mutex that nobody has used yet; no thread runs. -/
def start : State T C where
  mutex := none
  holder := 0
  pc := fun _ => .outside
  cond := fun _ => .idle
  gettid := fun _ => none
  used := ∅
  cachedTid := fun _ => 0

def runs [DecidableEq C] : System (State T C) (Action T C) Assertion where
  init := fun s => s = start
  step := step

/-! ## Sections and waits -/

namespace Pc

/-- From the end of the constructor of a guard to the beginning of its destructor, or between
`lock()` and `unlock()`. -/
def InSection : Pc C → Prop
  | .inside _ | .waitBegins _ | .waits _ | .waitEnds _ => True
  | .outside | .locked _ | .unassigned _ => False

/-- In a call of `wait` or `waitForSeconds`. -/
def InWait : Pc C → Prop
  | .waitBegins _ | .waits _ | .waitEnds _ => True
  | .outside | .locked _ | .inside _ | .unassigned _ => False

/-- The thread has `mutex_`. -/
def HasMutex : Pc C → Prop
  | .locked _ | .inside _ | .unassigned _ | .waitBegins _ | .waitEnds _ => True
  | .outside | .waits _ => False

/-- `holder_` is the id of the thread. -/
def IsHolder : Pc C → Prop
  | .inside _ => True
  | _ => False

theorem HasMutex.ne_outside {p : Pc C} (h : p.HasMutex) : p ≠ .outside := by
  intro heq
  rw [heq] at h
  exact h

end Pc

/-! ## The invariant -/

/-- A thread that is in a call has an id of its own, which it may have cached. The mutex is held
by the thread that is between locking and unlocking it, and `holder_` is the id of that thread, or
0 before it is assigned and behind its reset. -/
structure Inv (s : State T C) : Prop where
  living : ∀ t, s.pc t ≠ .outside → (s.gettid t).isSome
  ids : ∀ t id, s.gettid t = some id →
    0 < id ∧ id ∈ s.used ∧ (s.cachedTid t = 0 ∨ s.cachedTid t = id)
  distinct : ∀ t u id, s.gettid t = some id → s.gettid u = some id → t = u
  owner : ∀ t, (s.pc t).HasMutex ↔ s.mutex = some t
  holder : ∀ t, s.mutex = some t →
    ((s.pc t).IsHolder → s.gettid t = some s.holder) ∧ (¬ (s.pc t).IsHolder → s.holder = 0)
  nobody : s.mutex = none → s.holder = 0

variable {s u : State T C} {t : T} {id : Int} {p : Pc C} {c : C} {e : Entry}

omit [DecidableEq T] in
theorem inv_start : Inv (start : State T C) where
  living _ h := absurd rfl h
  ids _ _ h := nomatch h
  distinct _ _ _ h := nomatch h
  owner _ := iff_of_false not_false nofun
  holder _ h := nomatch h
  nobody _ := rfl

/-- The cached id is that of the thread. -/
theorem Inv.tid (h : Inv s) (hid : s.gettid t = some id) :
    (s.tid t).2 = id ∧ ∃ d, (s.tid t).1 = { s with cachedTid := d } ∧
      ∀ u id', s.gettid u = some id' → d u = 0 ∨ d u = id' := by
  obtain ⟨-, -, hcached⟩ := h.ids t id hid
  rw [State.tid]
  by_cases hzero : s.cachedTid t = 0
  · rw [if_pos hzero]
    refine ⟨by rw [hid, Option.getD_some], _, rfl, ?_⟩
    intro u id' hid'
    by_cases hu : u = t
    · subst hu
      rw [hid'] at hid
      rw [Function.update_self, hid', Option.getD_some]
      exact Or.inr rfl
    · rw [Function.update_of_ne hu]
      exact (h.ids u id' hid').2.2
  · rw [if_neg hzero]
    refine ⟨hcached.resolve_left hzero, s.cachedTid, rfl, ?_⟩
    intro u id' hid'
    exact (h.ids u id' hid').2.2

/-- A step of the thread that has the mutex, or takes it: what the next steps of the others
look at is left alone. -/
theorem Inv.goto (h : Inv s) (hfree : s.mutex = none ∨ s.mutex = some t)
    (hliving : (s.gettid t).isSome) (hpc : u.pc = Function.update s.pc t p)
    (hgettid : u.gettid = s.gettid) (hused : u.used = s.used)
    (hcached : ∀ t id, s.gettid t = some id → u.cachedTid t = 0 ∨ u.cachedTid t = id)
    (hmutex : p.HasMutex ∧ u.mutex = some t ∨ ¬ p.HasMutex ∧ u.mutex = none)
    (hholder : p.IsHolder ∧ s.gettid t = some u.holder ∨ ¬ p.IsHolder ∧ u.holder = 0)
    (hsub : p.IsHolder → p.HasMutex) : Inv u := by
  have hself : u.pc t = p := by rw [hpc, Function.update_self]
  have hother : ∀ v, v ≠ t → u.pc v = s.pc v := by
    intro v hv
    rw [hpc, Function.update_of_ne hv]
  refine ⟨?_, ?_, ?_, ?_, ?_, ?_⟩
  · intro v hv
    rw [hgettid]
    by_cases hvt : v = t
    · rw [hvt]
      exact hliving
    · rw [hother v hvt] at hv
      exact h.living v hv
  · intro v id hid
    rw [hgettid] at hid
    obtain ⟨hpos, hmem, -⟩ := h.ids v id hid
    rw [hused]
    exact ⟨hpos, hmem, hcached v id hid⟩
  · rw [hgettid]
    exact h.distinct
  · intro v
    by_cases hvt : v = t
    · rw [hvt, hself]
      rcases hmutex with ⟨hhas, heq⟩ | ⟨hhas, heq⟩
      · exact iff_of_true hhas heq
      · exact iff_of_false hhas (by rw [heq]; exact nofun)
    · -- the others do not have it, before and after
      rw [hother v hvt, h.owner v]
      refine iff_of_false ?_ ?_
      · rcases hfree with heq | heq
        · rw [heq]
          exact nofun
        · rw [heq]
          exact fun hsome => hvt (Option.some.inj hsome).symm
      · rcases hmutex with ⟨-, heq⟩ | ⟨-, heq⟩
        · rw [heq]
          exact fun hsome => hvt (Option.some.inj hsome).symm
        · rw [heq]
          exact nofun
  · intro v hv
    rcases hmutex with ⟨-, heq⟩ | ⟨-, heq⟩
    · rw [heq] at hv
      cases hv
      rw [hself, hgettid]
      rcases hholder with ⟨hin, hid⟩ | ⟨hin, hzero⟩
      · exact ⟨fun _ => hid, fun hnot => absurd hin hnot⟩
      · exact ⟨fun hin' => absurd hin' hin, fun _ => hzero⟩
    · rw [heq] at hv
      cases hv
  · intro hnone
    rcases hmutex with ⟨-, heq⟩ | ⟨hhas, -⟩
    · rw [heq] at hnone
      cases hnone
    · rcases hholder with ⟨hin, -⟩ | ⟨-, hzero⟩
      · exact absurd (hsub hin) hhas
      · exact hzero

omit [DecidableEq T] in
/-- A step that touches no more than the condition variables and the cached ids. -/
theorem Inv.frame (h : Inv s) {x : C → Condition T} {d : T → Int}
    (hcached : ∀ t id, s.gettid t = some id → d t = 0 ∨ d t = id) :
    Inv { s with cond := x, cachedTid := d } := by
  refine ⟨h.living, ?_, h.distinct, h.owner, h.holder, h.nobody⟩
  intro t id hid
  obtain ⟨hpos, hmem, -⟩ := h.ids t id hid
  exact ⟨hpos, hmem, hcached t id hid⟩

omit [DecidableEq T] in
theorem Inv.cached (h : Inv s) : ∀ t id, s.gettid t = some id →
    s.cachedTid t = 0 ∨ s.cachedTid t = id := fun t id hid => (h.ids t id hid).2.2

omit [DecidableEq T] in
theorem Inv.not_owner (h : Inv s) (hpc : s.pc t = .outside) : s.mutex ≠ some t := fun hmutex =>
  ((h.owner t).mpr hmutex).ne_outside hpc

/-- What becomes of the id of a thread without the mutex does not matter for `holder_`. -/
theorem Inv.holder_update (h : Inv s) (hpc : s.pc t = .outside) (x : Option Int) (v : T)
    (hv : s.mutex = some v) :
    ((s.pc v).IsHolder → Function.update s.gettid t x v = some s.holder) ∧
      (¬ (s.pc v).IsHolder → s.holder = 0) := by
  have hvt : v ≠ t := by
    intro heq
    rw [heq] at hv
    exact h.not_owner hpc hv
  rw [Function.update_of_ne hvt]
  exact h.holder v hv

omit [DecidableEq T] in
/-- A thread that is somewhere in a section runs. -/
theorem Inv.exists_id (h : Inv s) (hpc : s.pc t = p) (hp : p ≠ .outside) :
    ∃ id, s.gettid t = some id := by
  rw [← hpc] at hp
  exact Option.isSome_iff_exists.mp (h.living t hp)

/-! ## The steps -/

theorem Inv.start_thread (h : Inv s) (hnew : s.gettid t = none) (hpos : 0 < id)
    (hunused : id ∉ s.used) :
    Inv { s with
      gettid := Function.update s.gettid t (some id)
      used := insert id s.used
      cachedTid := Function.update s.cachedTid t 0 } := by
  have hpc : s.pc t = .outside := by
    by_contra hne
    have hsome := h.living t hne
    rw [hnew] at hsome
    cases hsome
  have hother : ∀ v, v ≠ t → Function.update s.gettid t (some id) v = s.gettid v := fun v hv =>
    Function.update_of_ne hv _ _
  have hself : Function.update s.gettid t (some id) t = some id := Function.update_self _ _ _
  refine ⟨?_, ?_, ?_, h.owner, ?_, h.nobody⟩
  · intro v hv
    by_cases hvt : v = t
    · rw [hvt] at hv
      exact absurd hpc hv
    · show (Function.update s.gettid t (some id) v).isSome
      rw [hother v hvt]
      exact h.living v hv
  · intro v id' hid
    have hid : Function.update s.gettid t (some id) v = some id' := hid
    show 0 < id' ∧ id' ∈ insert id s.used ∧ (Function.update s.cachedTid t 0 v = 0 ∨ _)
    by_cases hvt : v = t
    · rw [hvt, hself] at hid
      cases hid
      rw [hvt, Function.update_self]
      exact ⟨hpos, Finset.mem_insert_self _ _, Or.inl rfl⟩
    · rw [hother v hvt] at hid
      obtain ⟨hpos', hmem, hcached⟩ := h.ids v id' hid
      refine ⟨hpos', Finset.mem_insert_of_mem hmem, ?_⟩
      show Function.update s.cachedTid t 0 v = 0 ∨ Function.update s.cachedTid t 0 v = id'
      rw [Function.update_of_ne hvt]
      exact hcached
  · intro v w id' hv hw
    have hv : Function.update s.gettid t (some id) v = some id' := hv
    have hw : Function.update s.gettid t (some id) w = some id' := hw
    -- the id of a thread that runs is used
    by_cases hvt : v = t
    · by_cases hwt : w = t
      · rw [hvt, hwt]
      · rw [hvt, hself] at hv
        cases hv
        rw [hother w hwt] at hw
        exact absurd (h.ids w id hw).2.1 hunused
    · rw [hother v hvt] at hv
      by_cases hwt : w = t
      · rw [hwt, hself] at hw
        cases hw
        exact absurd (h.ids v id hv).2.1 hunused
      · rw [hother w hwt] at hw
        exact h.distinct v w id' hv hw
  · exact h.holder_update hpc (some id)

theorem Inv.exit_thread (h : Inv s) (hid : s.gettid t = some id) (hpc : s.pc t = .outside) :
    Inv { s with gettid := Function.update s.gettid t none, used := s.used.erase id } := by
  have hother : ∀ v, v ≠ t → Function.update s.gettid t none v = s.gettid v := fun v hv =>
    Function.update_of_ne hv _ _
  have hself : Function.update s.gettid t none t = none := Function.update_self _ _ _
  -- what still runs is another thread
  have hne : ∀ v id', Function.update s.gettid t none v = some id' →
      v ≠ t ∧ s.gettid v = some id' := by
    intro v id' hv
    have hvt : v ≠ t := by
      intro heq
      rw [heq, hself] at hv
      cases hv
    rw [hother v hvt] at hv
    exact ⟨hvt, hv⟩
  refine ⟨?_, ?_, ?_, h.owner, ?_, h.nobody⟩
  · intro v hv
    have hvt : v ≠ t := by
      intro heq
      rw [heq] at hv
      exact hv hpc
    show (Function.update s.gettid t none v).isSome
    rw [hother v hvt]
    exact h.living v hv
  · intro v id' hv
    obtain ⟨hvt, hv⟩ := hne v id' hv
    obtain ⟨hpos, hmem, hcached⟩ := h.ids v id' hv
    refine ⟨hpos, Finset.mem_erase.mpr ⟨?_, hmem⟩, hcached⟩
    intro heq
    rw [heq] at hv
    exact hvt (h.distinct v t id hv hid)
  · intro v w id' hv hw
    exact h.distinct v w id' (hne v id' hv).2 (hne w id' hw).2
  · exact h.holder_update hpc none

/-- `assignHolder()` of the thread that has the mutex, which is inside then. -/
theorem Inv.assign (h : Inv s) (hpc : s.pc t = p) (hp : p.HasMutex) (e : Entry) :
    Inv ((s.assignHolder t).goto t (.inside e)) := by
  have hmutex : s.mutex = some t := (h.owner t).mp (by rw [hpc]; exact hp)
  obtain ⟨id, hid⟩ := h.exists_id hpc hp.ne_outside
  obtain ⟨hsnd, d, hfst, hcached⟩ := h.tid hid
  have hassign : s.assignHolder t = { s with cachedTid := d, holder := id } := by
    show { (s.tid t).1 with holder := (s.tid t).2 } = _
    rw [hfst, hsnd]
  rw [hassign]
  exact h.goto (Or.inr hmutex) (Option.isSome_iff_exists.mpr ⟨id, hid⟩) rfl rfl rfl hcached
    (Or.inl ⟨trivial, hmutex⟩) (Or.inl ⟨trivial, hid⟩) fun _ => trivial

/-- `unassignHolder()` of the thread that is inside. -/
theorem Inv.unassign (h : Inv s) (hpc : s.pc t = .inside e) (hp : p.HasMutex)
    (hp' : ¬ p.IsHolder) : Inv (s.unassignHolder.goto t p) := by
  have hmutex : s.mutex = some t := (h.owner t).mp (by rw [hpc]; trivial)
  obtain ⟨id, hid⟩ := h.exists_id hpc nofun
  exact h.goto (Or.inr hmutex) (Option.isSome_iff_exists.mpr ⟨id, hid⟩) rfl rfl rfl h.cached
    (Or.inl ⟨hp, hmutex⟩) (Or.inr ⟨hp', rfl⟩) fun hin => absurd hin hp'

/-- The thread that has the mutex and is not inside gives it up. -/
theorem Inv.giveUp (h : Inv s) {q : Pc C} (hpc : s.pc t = q) (hq : q.HasMutex)
    (hq' : ¬ q.IsHolder) (p : Pc C) (hp : ¬ p.HasMutex) (hp' : ¬ p.IsHolder)
    (x : C → Condition T) :
    Inv ({ s with mutex := none, cond := x }.goto t p) := by
  have hmutex : s.mutex = some t := (h.owner t).mp (by rw [hpc]; exact hq)
  have hzero : s.holder = 0 := (h.holder t hmutex).2 (by rw [hpc]; exact hq')
  obtain ⟨id, hid⟩ := h.exists_id hpc hq.ne_outside
  exact h.goto (Or.inr hmutex) (Option.isSome_iff_exists.mpr ⟨id, hid⟩) rfl rfl rfl h.cached
    (Or.inr ⟨hp, rfl⟩) (Or.inr ⟨hp', hzero⟩) fun hin => absurd hin hp'

/-- A thread takes the free mutex. -/
theorem Inv.take (h : Inv s) (hfree : s.mutex = none) (hliving : (s.gettid t).isSome)
    (p : Pc C) (hp : p.HasMutex) (hp' : ¬ p.IsHolder) (x : C → Condition T) :
    Inv ({ s with mutex := some t, cond := x }.goto t p) :=
  h.goto (Or.inl hfree) hliving rfl rfl rfl h.cached (Or.inl ⟨hp, rfl⟩)
    (Or.inr ⟨hp', h.nobody hfree⟩) fun _ => hp

theorem assertLocked_eq (s : State T C) (t : T) :
    s.assertLocked t = (do
      check ((s.isLockedByThisThread t).2 = true) Assertion.isLockedByThisThread
      return (s.isLockedByThisThread t).1) := rfl

/-- `isLockedByThisThread()` of a thread that runs. -/
theorem Inv.isLocked (h : Inv s) (hid : s.gettid t = some id) :
    (s.isLockedByThisThread t).2 = (s.holder == id) ∧ Inv (s.isLockedByThisThread t).1 := by
  obtain ⟨hsnd, d, hfst, hcached⟩ := h.tid hid
  have hlocked : s.isLockedByThisThread t = ((s.tid t).1, (s.tid t).1.holder == (s.tid t).2) := rfl
  rw [hlocked, hfst, hsnd]
  exact ⟨rfl, h.frame hcached⟩

theorem Inv.look (h : Inv s) (hliving : (s.gettid t).isSome) :
    Inv (s.isLockedByThisThread t).1 := by
  obtain ⟨id, hid⟩ := Option.isSome_iff_exists.mp hliving
  exact (h.isLocked hid).2

variable [DecidableEq C] {a : Action T C}

theorem Inv.next (h : Inv s) (hn : runs.Next s a u) : Inv u := by
  have hn : step s a = some (.ok u) := hn
  cases a with
  | start t id =>
      rw [step] at hn
      obtain ⟨⟨hnew, hpos, hunused⟩, heq⟩ := of_guard hn
      cases heq
      exact h.start_thread hnew hpos hunused
  | exit t =>
      rw [step] at hn
      split at hn
      · case h_1 id hid =>
          obtain ⟨hpc, heq⟩ := of_guard hn
          cases heq
          exact h.exit_thread hid hpc
      · cases hn
  | acquire t e =>
      rw [step] at hn
      obtain ⟨⟨-, hliving, hfree⟩, heq⟩ := of_guard hn
      cases heq
      exact h.take hfree hliving (.locked e) trivial not_false s.cond
  | assignHolder t =>
      rw [step] at hn
      split at hn
      · case h_1 e hpc =>
          cases hn
          exact h.assign hpc trivial e
      · cases hn
  | unassignHolder t =>
      rw [step] at hn
      split at hn
      · case h_1 e hpc =>
          cases hn
          exact h.unassign hpc trivial not_false
      · cases hn
  | release t =>
      rw [step] at hn
      split at hn
      · case h_1 e hpc =>
          cases hn
          exact h.giveUp hpc trivial not_false .outside not_false not_false s.cond
      · cases hn
  | beginWait t c =>
      rw [step] at hn
      obtain ⟨hpc, heq⟩ := of_guard hn
      cases heq
      exact h.unassign hpc trivial not_false
  | block t =>
      rw [step] at hn
      split at hn
      · case h_1 c hpc =>
          cases hn
          exact h.giveUp hpc trivial not_false (.waits c) not_false not_false _
      · cases hn
  | notify t c choice =>
      rw [step] at hn
      obtain ⟨-, heq⟩ := of_guard hn
      cases heq
      exact h.frame h.cached
  | notifyAll t c =>
      rw [step] at hn
      obtain ⟨-, heq⟩ := of_guard hn
      cases heq
      exact h.frame h.cached
  | wake t c =>
      rw [step] at hn
      obtain ⟨-, heq⟩ := of_guard hn
      cases heq
      exact h.frame h.cached
  | reacquire t =>
      rw [step] at hn
      split at hn
      · case h_1 c hpc =>
          obtain ⟨⟨-, hfree⟩, heq⟩ := of_guard hn
          cases heq
          obtain ⟨id, hid⟩ := h.exists_id hpc nofun
          exact h.take hfree (Option.isSome_iff_exists.mpr ⟨id, hid⟩) (.waitEnds c) trivial
            not_false _
      · cases hn
  | endWait t =>
      rw [step] at hn
      split at hn
      · case h_1 c hpc =>
          cases hn
          exact h.assign hpc trivial .guard
      · cases hn
  | isLockedByThisThread t =>
      rw [step] at hn
      obtain ⟨hliving, heq⟩ := of_guard hn
      cases heq
      exact h.look hliving
  | assertLocked t =>
      rw [step] at hn
      obtain ⟨hliving, heq⟩ := of_guard hn
      rw [assertLocked_eq] at heq
      obtain ⟨-, -, heq⟩ := bind_eq_ok.mp heq
      cases heq
      exact h.look hliving

/-! ## Runs -/

theorem reachable_inv (h : runs.Reachable System.always s) : Inv s := by
  apply h.invariant
  · intro s h₀
    rw [h₀]
    exact inv_start
  · intro s a u hs _ hn
    exact hs.next hn

/-- What `holder_` tells, in a state. -/
structure Tracks (s : State T C) : Prop where
  inside : ∀ t, (s.pc t).InSection → ¬ (s.pc t).InWait →
    s.gettid t = some s.holder ∧ ∃ u, s.assertLocked t = .ok u
  outside : ∀ t, (s.gettid t).isSome → s.mutex ≠ some t → (s.isLockedByThisThread t).2 = false
  free : s.mutex = none → s.holder = 0
  destructor : (∀ t, s.pc t = .outside) → s.destructor = .ok ()

/-- In every run `holder_` is the id of the thread that is in a section and does not wait, no
thread without the mutex takes itself to have it, and `holder_` is 0 when no thread has it. -/
theorem holder_tracks (s : State T C) (h : runs.Reachable System.always s) : Tracks s := by
  have hinv := reachable_inv h
  refine ⟨?_, ?_, hinv.nobody, ?_⟩
  · intro t hsection hwait
    have hholder : (s.pc t).IsHolder ∧ (s.pc t).HasMutex := by
      cases hpc : s.pc t with
      | inside e => exact ⟨trivial, trivial⟩
      | outside | locked e | unassigned e =>
          rw [hpc] at hsection
          exact absurd hsection not_false
      | waitBegins c | waits c | waitEnds c =>
          rw [hpc] at hwait
          exact absurd trivial hwait
    have hid := (hinv.holder t ((hinv.owner t).mp hholder.2)).1 hholder.1
    refine ⟨hid, (s.isLockedByThisThread t).1, ?_⟩
    rw [assertLocked_eq, check_bind]
    · rfl
    · rw [(hinv.isLocked hid).1]
      exact beq_self_eq_true s.holder
  · intro t hliving hmutex
    obtain ⟨id, hid⟩ := Option.isSome_iff_exists.mp hliving
    rw [(hinv.isLocked hid).1, beq_eq_false_iff_ne]
    have hpos := (hinv.ids t id hid).1
    cases hm : s.mutex with
    | none =>
        rw [hinv.nobody hm]
        omega
    | some v =>
        -- another thread has it, and ids differ
        obtain ⟨hin, hzero⟩ := hinv.holder v hm
        by_cases hpc : (s.pc v).IsHolder
        · intro heq
          have hv := hin hpc
          rw [heq] at hv
          rw [hm, hinv.distinct v t id hv hid] at hmutex
          exact hmutex rfl
        · rw [hzero hpc]
          omega
  · intro hout
    have hnone : s.mutex = none := by
      rw [Option.eq_none_iff_forall_ne_some]
      intro t
      exact hinv.not_owner (hout t)
    exact check_ok (hinv.nobody hnone)

/-- A thread waits in a section of its own, and another one is in a section meanwhile. -/
def waitAndEnter : List (Action Bool Unit) :=
  [.start false 7, .acquire false .guard, .assignHolder false, .beginWait false (), .block false,
    .start true 8, .acquire true .lock, .assignHolder true, .assertLocked true]

theorem holder_tracks_wait : ∃ s : State Bool Unit, runs.Reachable System.always s ∧
    s.pc false = .waits () ∧ s.pc true = .inside .lock ∧ s.holder = 8 ∧ Tracks s := by
  have hrun := System.run_of_exec
    (rfl : runs.exec (start : State Bool Unit) waitAndEnter = some (.ok _))
  have hreach := (System.Reachable.of_init rfl).run hrun
  exact ⟨_, hreach, rfl, rfl, rfl, holder_tracks _ hreach⟩

end MutexLock

end Zing.Base
