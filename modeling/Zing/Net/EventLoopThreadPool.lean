import Zing.Lib.RoundRobin
import Zing.Lib.System
import Zing.Net.InetAddress

set_option autoImplicit false

/-! # The loops of a server

`EventLoopThreadPool`, and the functions of `TcpServer` that use it: `start`, which may be called
any number of times and from any thread, `setThreadNum`, and `newConnection`, as far as it
chooses a loop. What `EventLoopThread::startLoop` returns comes with the action; the loops of
two threads are two objects, and none is the base loop.

`loops_assigned` says that the connections are spread evenly over the loops, whatever is called
in between.
-/

namespace Zing.Net

open Zing.Lib

/-- `class EventLoopThreadPool`, with the names of its threads. `initialized` are the loops that
the init callback was called for, by the pool or by a thread, before `startLoop` returns. -/
structure EventLoopThreadPool (L : Type) where
  baseLoop : L
  name : List Char
  started : Bool
  numThreads : Int
  next : Nat
  threads : List (List Char)
  loops : List L
  initialized : List L

namespace EventLoopThreadPool

inductive Assertion
  /-- `assert(!started_)` in `start`. -/
  | notStarted
  /-- `assert(started_)` in `getNextLoop` and `getAllLoops`. -/
  | started
  /-- `loops_[i]` with an `i` that is too large. -/
  | outOfRange
  /-- `assert(0 <= numThreads)` in `TcpServer::setThreadNum`. -/
  | threadNum
  /-- `assert(!acceptor_->listening())` in `TcpServer::start`. -/
  | listening
  deriving DecidableEq, Repr

variable {L : Type}

def new (baseLoop : L) (name : List Char) : EventLoopThreadPool L where
  baseLoop := baseLoop
  name := name
  started := false
  numThreads := 0
  next := 0
  threads := []
  loops := []
  initialized := []

variable (p : EventLoopThreadPool L)

def setThreadNum (numThreads : Int) : EventLoopThreadPool L := { p with numThreads := numThreads }

/-- The body of the loop in `start`. -/
def startThread (cb : Bool) (startLoop : Nat → L) (p : EventLoopThreadPool L) (i : Nat) :
    EventLoopThreadPool L :=
  { p with
    threads := p.threads ++ [snprintf (p.name.length + 32) (p.name ++ fmtInt i)]
    loops := p.loops ++ [startLoop i]
    initialized := if cb = true then p.initialized ++ [startLoop i] else p.initialized }

/-- `start`; `cb` says whether there is an init callback. -/
def start (cb : Bool) (startLoop : Nat → L) : Except Assertion (EventLoopThreadPool L) := do
  check (p.started = false) .notStarted
  let p := (List.range p.numThreads.toNat).foldl (startThread cb startLoop)
    { p with started := true }
  if p.numThreads = 0 ∧ cb = true then
    .ok { p with initialized := p.initialized ++ [p.baseLoop] }
  else
    .ok p

def getNextLoop : Except Assertion (L × EventLoopThreadPool L) := do
  check (p.started = true) .started
  if p.loops = [] then
    .ok (p.baseLoop, p)
  else
    match p.loops[p.next]? with
    | none => .error .outOfRange
    | some loop => .ok (loop, { p with next := RoundRobin.advance p.loops.length p.next })

def getLoopForHash (hashCode : Nat) : Except Assertion L :=
  if p.loops = [] then
    .ok p.baseLoop
  else
    match p.loops[hashCode % p.loops.length]? with
    | none => .error .outOfRange
    | some loop => .ok loop

/-- The vector that `getAllLoops` returns. -/
def allLoops : List L := if p.loops = [] then [p.baseLoop] else p.loops

def getAllLoops : Except Assertion (List L) := do
  check (p.started = true) .started
  .ok p.allLoops

end EventLoopThreadPool

namespace ServerPool

open EventLoopThreadPool (Assertion)
open RoundRobin (picks)

variable {L : Type}

/-- `class TcpServer`, as far as it has to do with its loops. `listen` says that
`Acceptor::listen` was passed to `runInLoop` and has not run; `picked` are the loops that
`getNextLoop` has returned. -/
structure Server (L : Type) where
  started : Nat
  threadPool : EventLoopThreadPool L
  threadInitCallback : Bool
  listen : Bool
  listening : Bool
  picked : List L

def Server.new (loop : L) (name : List Char) : Server L where
  started := 0
  threadPool := EventLoopThreadPool.new loop name
  threadInitCallback := false
  listen := false
  listening := false
  picked := []

namespace Server

variable (s : Server L)

/-- `TcpServer::setThreadNum` -/
def setThreadNum (numThreads : Int) : Except Assertion (Server L) := do
  check (0 ≤ numThreads) .threadNum
  .ok { s with threadPool := s.threadPool.setThreadNum numThreads }

/-- `TcpServer::start`; `started_` is an `AtomicInt32`. -/
def start (startLoop : Nat → L) : Except Assertion (Server L) := do
  let started := (s.started + 1) % 2 ^ 32
  if s.started = 0 then do
    let threadPool ← s.threadPool.start s.threadInitCallback startLoop
    check (s.listening = false) .listening
    .ok { s with started := started, threadPool := threadPool, listen := true }
  else
    .ok { s with started := started }

/-- A call of `getNextLoop`. -/
def pick : Except Assertion (Server L) := do
  let r ← s.threadPool.getNextLoop
  .ok { s with threadPool := r.2, picked := s.picked ++ [r.1] }

end Server

inductive Action (L : Type)
  | setThreadNum (numThreads : Int)
  | setThreadInitCallback
  | start (startLoop : Nat → L)
  /-- `Acceptor::listen` on the base loop. -/
  | listen
  /-- `TcpServer::newConnection`, up to the choice of a loop. -/
  | newConnection
  /-- The user calls `threadPool()->getNextLoop()`. -/
  | getNextLoop

def Server.step (s : Server L) : Action L → Option (Except Assertion (Server L))
  | .setThreadNum numThreads => some (s.setThreadNum numThreads)
  | .setThreadInitCallback => some (.ok { s with threadInitCallback := true })
  | .start startLoop => some (s.start startLoop)
  | .listen =>
      if s.listen = true then some (.ok { s with listen := false, listening := true }) else none
  | .newConnection => if s.listening = true then some s.pick else none
  | .getNextLoop => some s.pick

/-- The calls on a new server. -/
def server (loop : L) (name : List Char) : System (Server L) (Action L) Assertion where
  init s := s = Server.new loop name
  step := Server.step

/-- The loops of the threads are different objects, and there are less than `2 ^ 32` calls of
`start`. -/
def Takes (s : Server L) : Action L → Prop
  | .start startLoop => s.started + 1 < 2 ^ 32 ∧ startLoop.Injective ∧
      ∀ i, startLoop i ≠ s.threadPool.baseLoop
  | _ => True

/-! ## Starting the threads -/

variable {p : EventLoopThreadPool L}

/-- What the loop in `start` leaves, when `n` threads are started. -/
structure Threads (p p' : EventLoopThreadPool L) (cb : Bool) (startLoop : Nat → L) (n : Nat) :
    Prop where
  loops : p'.loops = p.loops ++ (List.range n).map startLoop
  initialized : p'.initialized =
    p.initialized ++ if cb = true then (List.range n).map startLoop else []
  same : p'.baseLoop = p.baseLoop ∧ p'.started = p.started ∧ p'.numThreads = p.numThreads ∧
    p'.next = p.next

theorem foldl_startThread (p : EventLoopThreadPool L) (cb : Bool) (startLoop : Nat → L)
    (n : Nat) : Threads p
      ((List.range n).foldl (EventLoopThreadPool.startThread cb startLoop) p) cb startLoop n := by
  induction n with
  | zero =>
      refine ⟨?_, ?_, rfl, rfl, rfl, rfl⟩
      · exact (List.append_nil _).symm
      · show p.initialized = p.initialized ++ if cb = true then [] else []
        rw [ite_self, List.append_nil]
  | succ n ih =>
      obtain ⟨hloops, hinit, hsame⟩ := ih
      rw [List.range_succ, List.foldl_append]
      refine ⟨?_, ?_, hsame⟩
      · show _ ++ [startLoop n] = _
        rw [hloops, List.range_succ, List.map_append, List.append_assoc]
        rfl
      · show (if cb = true then _ ++ [startLoop n] else _) = _
        rw [hinit]
        by_cases hcb : cb = true
        · rw [if_pos hcb, if_pos hcb, if_pos hcb, List.range_succ, List.map_append,
            List.append_assoc]
          rfl
        · rw [if_neg hcb, if_neg hcb, if_neg hcb]

/-! ## The invariant -/

/-- The server in any state: the base loop is not among the loops of the threads, which are
different, and the picks go round. -/
structure Inv (s : Server L) : Prop where
  started : s.threadPool.started = true ↔ s.started ≠ 0
  before : s.started = 0 → s.threadPool.loops = [] ∧ s.threadPool.initialized = [] ∧
    s.threadPool.next = 0 ∧ s.picked = [] ∧ s.listening = false ∧ s.listen = false
  nodup : s.threadPool.loops.Nodup
  initialized : s.threadPool.initialized = [] ∨
    s.threadPool.initialized = s.threadPool.allLoops
  numThreads : 0 ≤ s.threadPool.numThreads
  next : s.threadPool.loops ≠ [] →
    s.threadPool.next = s.picked.length % s.threadPool.loops.length
  picked : s.picked = picks s.threadPool.allLoops s.picked.length

variable {s t : Server L}

theorem inv_new (loop : L) (name : List Char) : Inv (Server.new loop name) where
  started := by
    constructor
    · intro h
      cases h
    · intro h
      exact absurd rfl h
  before := fun _ => ⟨rfl, rfl, rfl, rfl, rfl, rfl⟩
  nodup := List.nodup_nil
  initialized := Or.inl rfl
  numThreads := Int.le_refl 0
  next := fun h => absurd rfl h
  picked := rfl

/-- What `TcpServer::start` does in its first call. -/
structure Starts (s t : Server L) (opened : List L) : Prop where
  loops : t.threadPool.loops = opened
  initialized : t.threadPool.initialized =
    if s.threadInitCallback = true then t.threadPool.allLoops else []
  started : t.threadPool.started = true
  same : t.threadPool.baseLoop = s.threadPool.baseLoop ∧
    t.threadPool.numThreads = s.threadPool.numThreads ∧ t.threadPool.next = s.threadPool.next
  rest : t = { s with started := s.started + 1, threadPool := t.threadPool, listen := true }

/-- The init callback is called for all loops. -/
theorem start_spec (h : Inv s) (hfirst : s.started = 0) (startLoop : Nat → L) :
    ∃ t, s.start startLoop = .ok t ∧
      Starts s t ((List.range s.threadPool.numThreads.toNat).map startLoop) := by
  obtain ⟨hnone, hinit, -, -, hnot, -⟩ := h.before hfirst
  have hstarted : s.threadPool.started = false := by
    rw [Bool.eq_false_iff]
    intro hs
    exact h.started.mp hs hfirst
  have hone : (s.started + 1) % 2 ^ 32 = s.started + 1 := by
    rw [hfirst]
    rfl
  obtain ⟨hloops, hinitialized, hbase, hstart, hnum, hnext⟩ := foldl_startThread
    { s.threadPool with started := true } s.threadInitCallback startLoop
    s.threadPool.numThreads.toNat
  set p' := (List.range s.threadPool.numThreads.toNat).foldl
    (EventLoopThreadPool.startThread s.threadInitCallback startLoop)
    { s.threadPool with started := true } with hp'
  simp only at hloops hinitialized hbase hstart hnum hnext
  rw [hnone, List.nil_append] at hloops
  rw [hinit, List.nil_append] at hinitialized
  rw [Server.start, if_pos hfirst, EventLoopThreadPool.start, check_bind hstarted, hone, ← hp']
  dsimp only
  by_cases hbaseOnly : p'.numThreads = 0 ∧ s.threadInitCallback = true
  · rw [if_pos hbaseOnly, ok_bind, check_bind hnot]
    obtain ⟨hzero, hcb⟩ := hbaseOnly
    rw [hnum] at hzero
    refine ⟨_, rfl, ⟨hloops, ?_, hstart, ⟨hbase, hnum, hnext⟩, rfl⟩⟩
    have hempty : p'.loops = [] := by
      rw [hloops, hzero]
      rfl
    show p'.initialized ++ [p'.baseLoop] =
      if s.threadInitCallback = true then EventLoopThreadPool.allLoops { p' with initialized := _ }
      else []
    rw [EventLoopThreadPool.allLoops, if_pos hempty, hinitialized, hzero, if_pos hcb, if_pos hcb]
    rfl
  · rw [if_neg hbaseOnly, ok_bind, check_bind hnot]
    refine ⟨_, rfl, ⟨hloops, ?_, hstart, ⟨hbase, hnum, hnext⟩, rfl⟩⟩
    show p'.initialized = if s.threadInitCallback = true then p'.allLoops else []
    rw [hinitialized]
    by_cases hcb : s.threadInitCallback = true
    · have hne : p'.loops ≠ [] := by
        have hnz : s.threadPool.numThreads ≠ 0 := fun hzero => hbaseOnly ⟨hnum.trans hzero, hcb⟩
        have hnonneg := h.numThreads
        rw [hloops, Ne, List.map_eq_nil_iff, List.range_eq_nil]
        omega
      rw [if_pos hcb, if_pos hcb, EventLoopThreadPool.allLoops, if_neg hne, hloops]
    · rw [if_neg hcb, if_neg hcb]

theorem Inv.start (h : Inv s) (hfirst : s.started = 0) {startLoop : Nat → L}
    (hinj : startLoop.Injective) :
    ∃ t, s.start startLoop = .ok t ∧ Inv t := by
  obtain ⟨t, hok, hs⟩ := start_spec h hfirst startLoop
  obtain ⟨-, -, hnext, hpicked, -⟩ := h.before hfirst
  have hstarted : t.started = s.started + 1 := by rw [hs.rest]
  have hpicked' : t.picked = [] := by
    rw [hs.rest]
    exact hpicked
  refine ⟨t, hok, ?_, ?_, ?_, ?_, ?_, ?_, ?_⟩
  · rw [hs.started, hstarted]
    simp
  · intro hzero
    rw [hstarted] at hzero
    omega
  · rw [hs.loops]
    exact List.nodup_range.map hinj
  · rw [hs.initialized]
    split
    · exact Or.inr rfl
    · exact Or.inl rfl
  · rw [hs.same.2.1]
    exact h.numThreads
  · intro _
    rw [hs.same.2.2, hnext, hpicked', List.length_nil, Nat.zero_mod]
  · rw [hpicked']
    rfl

/-- What does not change any more once the server is started. -/
structure Settled (s t : Server L) : Prop where
  started : t.started ≠ 0
  loops : t.threadPool.loops = s.threadPool.loops
  baseLoop : t.threadPool.baseLoop = s.threadPool.baseLoop

/-- A pick: the next loop in turn. -/
theorem Inv.pick (h : Inv s) (hstarted : s.threadPool.started = true) :
    ∃ t, s.pick = .ok t ∧ Inv t ∧ Settled s t := by
  have hne : s.started ≠ 0 := h.started.mp hstarted
  rw [Server.pick, EventLoopThreadPool.getNextLoop, check_bind hstarted]
  by_cases hempty : s.threadPool.loops = []
  · -- the base loop does everything
    have hall : s.threadPool.allLoops = [s.threadPool.baseLoop] := if_pos hempty
    rw [if_pos hempty]
    refine ⟨_, rfl, ⟨h.started, fun hzero => absurd hzero hne, h.nodup, h.initialized,
      h.numThreads,
      fun hloops => absurd hempty hloops, ?_⟩, hne, rfl, rfl⟩
    show s.picked ++ [_] = picks s.threadPool.allLoops (s.picked ++ [_]).length
    have hturn : s.threadPool.allLoops[s.picked.length % s.threadPool.allLoops.length]? =
        some s.threadPool.baseLoop := by
      rw [hall, List.length_singleton, Nat.mod_one]
      rfl
    rw [List.length_append, List.length_singleton, RoundRobin.picks_succ _ _ hturn, ← h.picked]
  · have hall : s.threadPool.allLoops = s.threadPool.loops := if_neg hempty
    obtain ⟨loop, hloop⟩ := RoundRobin.exists_pick hempty s.picked.length
    have hnext := h.next hempty
    rw [if_neg hempty, hnext, hloop]
    refine ⟨_, rfl, ⟨h.started, fun hzero => absurd hzero hne, h.nodup, h.initialized,
      h.numThreads, ?_, ?_⟩, hne, rfl, rfl⟩
    · intro _
      show RoundRobin.advance _ _ = (s.picked ++ [loop]).length % _
      rw [RoundRobin.advance_mod (List.length_pos_of_ne_nil hempty), List.length_append,
        List.length_singleton]
    · show s.picked ++ [loop] = picks s.threadPool.allLoops (s.picked ++ [loop]).length
      rw [List.length_append, List.length_singleton,
        RoundRobin.picks_succ _ _ (hall ▸ hloop), ← h.picked]

/-- The assertions that may fail: a negative number of threads, and `getNextLoop` before
`start`. -/
def Misused (s : Server L) (a : Action L) (e : Assertion) : Prop :=
  (e = .threadNum ∧ ∃ n, n < 0 ∧ a = .setThreadNum n) ∨
    (e = .started ∧ a = .getNextLoop ∧ s.started = 0)

/-- A call of `getNextLoop` before `start`. -/
theorem pick_error (hstarted : s.threadPool.started = false) : s.pick = .error .started := by
  have hnot : ¬ s.threadPool.started = true := by
    rw [hstarted]
    exact Bool.false_ne_true
  rw [Server.pick, EventLoopThreadPool.getNextLoop, check_error hnot]
  rfl

/-- How a step ends. -/
theorem Inv.step (h : Inv s) {a : Action L} (hp : Takes s a)
    {r : Except Assertion (Server L)} (hr : s.step a = some r) :
    Ends (fun t => Inv t ∧ (s.started ≠ 0 → Settled s t)) (Misused s a) r := by
  cases a with
  | setThreadNum numThreads =>
      obtain rfl := Option.some.inj hr
      rw [Server.setThreadNum]
      by_cases hn : 0 ≤ numThreads
      · rw [check_bind hn]
        exact ⟨⟨h.started, h.before, h.nodup, h.initialized, hn, h.next, h.picked⟩,
          fun hne => ⟨hne, rfl, rfl⟩⟩
      · rw [check_error hn]
        exact Or.inl ⟨rfl, numThreads, by omega, rfl⟩
  | setThreadInitCallback =>
      obtain rfl := Option.some.inj hr
      exact ⟨⟨h.started, h.before, h.nodup, h.initialized, h.numThreads, h.next, h.picked⟩,
        fun hne => ⟨hne, rfl, rfl⟩⟩
  | start startLoop =>
      obtain rfl := Option.some.inj hr
      by_cases hfirst : s.started = 0
      · obtain ⟨t, hok, hinv⟩ := h.start hfirst hp.2.1
        rw [hok]
        exact ⟨hinv, fun hne => absurd hfirst hne⟩
      · -- only the count changes
        have hcount : (s.started + 1) % 2 ^ 32 = s.started + 1 := Nat.mod_eq_of_lt hp.1
        have hboth : s.started ≠ 0 ↔ s.started + 1 ≠ 0 := by omega
        rw [Server.start, if_neg hfirst, hcount]
        exact ⟨⟨h.started.trans hboth, fun hzero => absurd hzero (Nat.succ_ne_zero _), h.nodup,
          h.initialized, h.numThreads, h.next, h.picked⟩,
          fun _ => ⟨Nat.succ_ne_zero _, rfl, rfl⟩⟩
  | listen =>
      obtain ⟨hlisten, rfl⟩ := of_guard hr
      have hne : s.started ≠ 0 := by
        intro hzero
        rw [(h.before hzero).2.2.2.2.2] at hlisten
        cases hlisten
      exact ⟨⟨h.started, fun hzero => absurd hzero hne, h.nodup, h.initialized, h.numThreads,
        h.next, h.picked⟩, fun hne => ⟨hne, rfl, rfl⟩⟩
  | newConnection =>
      obtain ⟨hlistening, rfl⟩ := of_guard hr
      have hne : s.started ≠ 0 := by
        intro hzero
        rw [(h.before hzero).2.2.2.2.1] at hlistening
        cases hlistening
      obtain ⟨t, hok, hinv, hsame⟩ := h.pick (h.started.mpr hne)
      rw [hok]
      exact ⟨hinv, fun _ => hsame⟩
  | getNextLoop =>
      obtain rfl := Option.some.inj hr
      by_cases hstarted : s.threadPool.started = true
      · obtain ⟨t, hok, hinv, hsame⟩ := h.pick hstarted
        rw [hok]
        exact ⟨hinv, fun _ => hsame⟩
      · have hzero : s.started = 0 := by
          by_contra hne
          exact hstarted (h.started.mpr hne)
        rw [pick_error (Bool.not_eq_true _ ▸ hstarted)]
        exact Or.inr ⟨rfl, rfl, hzero⟩

/-! ## Runs -/

variable {loop : L} {name : List Char}

theorem reachable_inv (h : (server loop name).Reachable Takes s) : Inv s := by
  apply h.invariant
  · rintro _ rfl
    exact inv_new loop name
  · intro s a t hs hp hn
    exact (hs.step hp hn).1

/-- Behind `start` the loops stay the same. -/
theorem run_settled (h : Inv s) (hs : s.started ≠ 0) {as : List (Action L)}
    (hr : (server loop name).Run Takes s as t) : Settled s t := by
  have hboth : Inv t ∧ Settled s t := by
    apply hr.invariant (I := fun t => Inv t ∧ Settled s t)
    · intro t a u ht hp hn
      obtain ⟨hinv, hsettled⟩ := ht.1.step hp hn
      obtain ⟨hstarted, hloops, hbase⟩ := hsettled ht.2.started
      exact ⟨hinv, hstarted, hloops.trans ht.2.loops, hbase.trans ht.2.baseLoop⟩
    · exact ⟨h, hs, rfl, rfl⟩
  exact hboth.2

theorem Settled.allLoops (h : Settled s t) : t.threadPool.allLoops = s.threadPool.allLoops := by
  rw [EventLoopThreadPool.allLoops, EventLoopThreadPool.allLoops, h.loops, h.baseLoop]

theorem Settled.getLoopForHash (h : Settled s t) (hashCode : Nat) :
    t.threadPool.getLoopForHash hashCode = s.threadPool.getLoopForHash hashCode := by
  rw [EventLoopThreadPool.getLoopForHash, EventLoopThreadPool.getLoopForHash, h.loops, h.baseLoop]

theorem Inv.nodup_allLoops (h : Inv s) : s.threadPool.allLoops.Nodup := by
  rw [EventLoopThreadPool.allLoops]
  split
  · exact List.nodup_singleton _
  · exact h.nodup

/-- However `setThreadNum`, `start`, `getNextLoop` and new connections follow each other, the
loops are given out in turn, so that no loop is ahead of another by more than one; the init
callback has been called for all of them or for none; behind `start` they stay the same, and so
does the loop for a hash code; and no assertion fails but for a negative number of threads, or a
`getNextLoop` before `start`. -/
theorem loops_assigned [DecidableEq L] (h : (server loop name).Reachable Takes s) :
    s.picked = picks s.threadPool.allLoops s.picked.length ∧
      (∀ x ∈ s.threadPool.allLoops, ∀ y ∈ s.threadPool.allLoops,
        s.picked.count x ≤ s.picked.count y + 1) ∧
      (s.threadPool.initialized = [] ∨ s.threadPool.initialized = s.threadPool.allLoops) ∧
      (s.threadPool.started = true → ∀ as t, (server loop name).Run Takes s as t →
        t.threadPool.allLoops = s.threadPool.allLoops ∧ ∀ hashCode,
          t.threadPool.getLoopForHash hashCode = s.threadPool.getLoopForHash hashCode) ∧
      ∀ a e, Takes s a → (server loop name).Fails s a e → Misused s a e := by
  have hinv := reachable_inv h
  refine ⟨hinv.picked, ?_, hinv.initialized, ?_, ?_⟩
  · intro x hx y hy
    rw [hinv.picked]
    exact RoundRobin.count_picks_le hinv.nodup_allLoops hx hy _
  · intro hstarted as t hr
    have hsettled := run_settled hinv (hinv.started.mp hstarted) hr
    exact ⟨hsettled.allLoops, hsettled.getLoopForHash⟩
  · intro a e hp hf
    exact hinv.step hp hf

/-- Three threads, of which the init callback is told, and four connections. -/
theorem loops_assigned_sample : ∃ s : Server Nat, (server 0 []).Reachable Takes s ∧
    s.picked = [1, 2, 3, 1] ∧
    s.picked.count 1 ≤ s.picked.count 3 + 1 ∧
    (s.threadPool.initialized = [] ∨ s.threadPool.initialized = s.threadPool.allLoops) := by
  have h₁ : (server 0 []).Run Takes (Server.new 0 []) [.setThreadNum 3] _ :=
    System.Run.single trivial rfl
  have h₂ := h₁.snoc (a := Action.setThreadInitCallback) trivial rfl
  have h₃ := h₂.snoc (a := Action.start fun i => i + 1)
    ⟨by decide, fun i j hij => Nat.succ.inj hij, fun i => Nat.succ_ne_zero i⟩ rfl
  have h₄ := h₃.snoc (a := Action.listen) trivial rfl
  have h₅ := h₄.snoc (a := Action.newConnection) trivial rfl
  have h₆ := h₅.snoc (a := Action.newConnection) trivial rfl
  have h₇ := h₆.snoc (a := Action.newConnection) trivial rfl
  have h₈ := h₇.snoc (a := Action.newConnection) trivial rfl
  have hreach : (server 0 []).Reachable Takes _ := ⟨_, _, rfl, h₈⟩
  obtain ⟨-, hcount, hinit, -⟩ := loops_assigned hreach
  exact ⟨_, hreach, rfl, hcount 1 (by decide) 3 (by decide), hinit⟩

end ServerPool

end Zing.Net
