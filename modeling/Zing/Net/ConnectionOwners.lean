import Zing.Lib.Batch
import Zing.Net.ConnectionEffects

set_option autoImplicit false

/-! # The owners of a connection

The functors that `send`, `shutdown`, `startRead` and `stopRead` post are bound to the raw
`this`, those of the other functions to a `shared_ptr`. `Shared` is a connection with the
copies of its `TcpConnectionPtr` that the user holds, and with the functors of the batch that
have run, which own what they own until the batch is over. `owners` counts the owners, and
`Owned` says that no functor is left to use a connection that has none.

A call of another thread is made through one of the user's copies, which is not dropped before
the call returns.
-/

namespace Zing.Net.Connection

open Zing.Lib
open TcpConnection (Functor Effect)

/-! ## Owners -/

/-- The functor is bound to the raw `this`. -/
def Job.raw : Job → Bool
  | .conn (.sendInLoop _) => true
  | .conn .shutdownInLoop => true
  | .conn .startReadInLoop => true
  | .conn .stopReadInLoop => true
  | _ => false

/-- The functor is bound to a `shared_ptr`. The one of a delayed close has a weak pointer. -/
def Job.owns : Job → Bool
  | .connectEstablished => true
  | .conn .connectDestroyed => true
  | .conn .forceCloseInLoop => true
  | .conn .writeCompleteCallback => true
  | .conn (.highWaterMarkCallback _) => true
  | _ => false

/-- The function holds a `shared_ptr`: its own `guardThis` or `conn`, that of the functor that
has called it, or the one that `handleEvent` has got from `tie_`. -/
def Frame.owns : Frame → Bool
  | .user => false
  | _ => true

/-- The calls of another thread that test nothing. -/
inductive ReadCall
  | startRead
  | stopRead
  deriving DecidableEq, Repr

def ReadCall.functor : ReadCall → Functor
  | startRead => .startReadInLoop
  | stopRead => .stopReadInLoop

/-- The connection with the user's copies of its pointer. `reading` says which thread is in a
call of `startRead` or `stopRead`, and `reads` counts these calls; `ran` are the functors of the
batch that have run. -/
structure Shared (T : Type) where
  world : World T
  copies : Nat
  reading : T → Option ReadCall
  reads : Nat
  ran : List Job

variable {T : Type}

/-- What is left of the batch. -/
def Phase.rest : Phase → List Job
  | .calling rest => rest
  | _ => []

namespace Shared

def batches (s : Shared T) : Batches Job where
  ran := s.ran
  rest := s.world.phase.rest
  pending := s.world.pending

/-- `use_count()` -/
def owners (s : Shared T) : Nat :=
  (if s.world.connections = true then 1 else 0) + s.world.baseQueue + s.copies
    + s.world.stack.countP Frame.owns + s.batches.items.countP Job.owns

/-- A functor that may still use the connection has an owner beside it. -/
def Owned (s : Shared T) : Prop := (∃ j ∈ s.world.jobs, j.raw = true) → 0 < s.owners

end Shared

/-! ## Runs -/

inductive SharedAction (T : Type)
  | own (a : Action T)
  | copy
  | drop
  | read (thread : T) (c : ReadCall)
  | post (thread : T)

namespace Shared

/-- There is a pointer to make a call with: a copy, or the argument of a callback. -/
def inHand (s : Shared T) : Bool :=
  decide (0 < s.copies) || decide (s.world.stack.head? = some .callback)

/-- The steps of the connection's surroundings that its owners admit. Without an owner it is
destroyed at once. -/
def allows (s : Shared T) : Action T → Bool
  | .destruct => decide (s.owners = 0)
  | .call _ _ => s.inHand
  | .startRead => s.inHand
  | .stopRead => s.inHand
  | .test thread _ => decide (0 < s.copies) && (s.reading thread).isNone
  | _ => decide (0 < s.owners) || s.world.dead

/-- The functors that have run, behind a step. The vector of `doPendingFunctors` is destroyed
with the last of them. -/
def ranBehind (s : Shared T) : Action T → List Job
  | .nextJob _ =>
      match s.world.phase with
      | .calling (j :: _) => s.ran ++ [j]
      | _ => s.ran
  | .jobsDone => []
  | _ => s.ran

/-- No call of another thread is under way. -/
def unused (s : Shared T) : Bool := s.world.calls = 0 && s.reads = 0

variable [DecidableEq T]

def step (s : Shared T) : SharedAction T → Option (Except Assertion (Shared T))
  | .own a =>
      if s.allows a = true then
        (Connection.step s.world a).map fun r =>
          r.map fun w => { s with world := w, ran := s.ranBehind a }
      else none
  | .copy => if s.inHand = true then some (.ok { s with copies := s.copies + 1 }) else none
  | .drop =>
      -- a copy is there for the calls that are under way
      if 0 < s.copies ∧ (s.copies = 1 → s.unused = true) then
        some (.ok { s with copies := s.copies - 1 })
      else none
  | .read thread c =>
      match s.reading thread, s.world.foreign thread with
      | none, .idle =>
          if 0 < s.copies then
            some (.ok { s with
              reading := Function.update s.reading thread (some c)
              reads := s.reads + 1 })
          else none
      | _, _ => none
  | .post thread =>
      match s.reading thread with
      | some c =>
          some (.ok { s with
            world := s.world.queue (.conn c.functor)
            reading := Function.update s.reading thread none
            reads := s.reads - 1 })
      | none => none

/-- A connection that `newConnection` has made, which the user does not know yet. -/
structure Start (s : Shared T) : Prop where
  world : Connection.Start s.world
  copies : s.copies = 0
  reading : ∀ thread, s.reading thread = none
  reads : s.reads = 0
  ran : s.ran = []

def runs : System (Shared T) (SharedAction T) Assertion where
  init := Start
  step := step

end Shared

/-! ## What the steps do to the queue -/

/-- What decides about the owners in the queue. -/
structure Custody (T : Type) where
  phase : Phase
  pending : List Job
  foreign : T → Foreign
  calls : Nat
  connections : Bool
  baseQueue : Nat

namespace Custody

/-- The server's map or a removal that is on its way has the connection, and will hand it over
to a functor. -/
def upstream (c : Custody T) : Prop := c.connections = true ∨ 0 < c.baseQueue

/-- A step of the loop thread: functors are appended that own the connection or do not use it,
and the connection is not given up without one that owns it. -/
inductive Grows (c : Custody T) : Custody T → Prop
  | mk (js : List Job) (connections : Bool) (baseQueue : Nat)
      (hjs : ∀ j ∈ js, j.raw = false)
      (hup : c.upstream →
        { c with connections := connections, baseQueue := baseQueue }.upstream ∨
          ∃ j ∈ js, j.owns = true) :
      Grows c { c with
        pending := c.pending ++ js, connections := connections, baseQueue := baseQueue }

theorem Grows.refl (c : Custody T) : Grows c c := by
  have h := Grows.mk (c := c) [] c.connections c.baseQueue (fun j hj => by cases hj) Or.inl
  rw [List.append_nil] at h
  exact h

/-- The connection stays where it is. -/
theorem Grows.append (c : Custody T) (js : List Job) (hjs : ∀ j ∈ js, j.raw = false) :
    Grows c { c with pending := c.pending ++ js } :=
  .mk js c.connections c.baseQueue hjs Or.inl

/-- The connection goes to a functor that owns it. -/
theorem Grows.handOver (c : Custody T) {j : Job} (hj : j.owns = true) (hraw : j.raw = false)
    (connections : Bool) (baseQueue : Nat) :
    Grows c { c with
      pending := c.pending ++ [j], connections := connections, baseQueue := baseQueue } := by
  refine Grows.mk [j] connections baseQueue ?_ fun _ => Or.inr ⟨j, List.mem_singleton_self j, hj⟩
  intro i hi
  rw [List.mem_singleton.mp hi]
  exact hraw

end Custody

namespace World

variable {w w' : World T}

def custody (w : World T) : Custody T where
  phase := w.phase
  pending := w.pending
  foreign := w.foreign
  calls := w.calls
  connections := w.connections
  baseQueue := w.baseQueue

/-- `r` is the end of a step of the loop thread from `w`. -/
def Grows (w : World T) (r : Except Assertion (World T)) : Prop :=
  Ends (fun w' => Custody.Grows w.custody w'.custody) (fun _ => True) r

theorem grows_same (h : w'.custody = w.custody) : w.Grows (.ok w') := by
  show Custody.Grows w.custody w'.custody
  rw [h]
  exact .refl _

theorem Grows.congr {r : Except Assertion (World T)} (hg : w'.Grows r)
    (h : w'.custody = w.custody) : w.Grows r := by
  unfold Grows at hg ⊢
  rw [← h]
  exact hg

theorem grows_check {c : Prop} [Decidable c] {e : Assertion}
    {f : Unit → Except Assertion (World T)} (hg : w.Grows (f ())) :
    w.Grows (check c e >>= f) :=
  Ends.check_any trivial hg

/-- What a function of the connection posts are callbacks, if anything. -/
theorem grows_perform {r : Except TcpConnection.Assertion (TcpConnection × List Effect)}
    (hr : ∀ conn es, r = .ok (conn, es) → ∀ g, Effect.queueInLoop g ∈ es → g.isCallback = true) :
    w.Grows (w.perform r) := by
  apply (w.perform_ends r).mono _ fun _ _ => trivial
  rintro _ ⟨conn, es, c, p, o, hok, rfl⟩
  apply Custody.Grows.append
  intro j hj
  obtain ⟨g, rfl, hg⟩ := mem_jobs_isCallback (hr conn es hok) hj
  -- of the functors only the callbacks are left, none of which is bound to the raw `this`
  cases g <;> first | rfl | cases hg

theorem not_mem_updateChannel {g : Functor} (h : Effect.queueInLoop g ∈ [Effect.updateChannel]) :
    g.isCallback = true := by
  cases List.mem_singleton.mp h

/-- A function of the connection that only asserts its state and updates the channel. -/
theorem grows_update {c : Prop} [Decidable c] {e : TcpConnection.Assertion}
    {conn : TcpConnection} :
    w.Grows (w.perform (do check c e; return (conn, [Effect.updateChannel]))) := by
  apply grows_perform
  intro conn es hok g hg
  obtain ⟨_, -, hok⟩ := bind_eq_ok.mp hok
  cases hok
  exact not_mem_updateChannel hg

theorem connectEstablished_grows (w : World T) : w.Grows w.connectEstablished := by
  have hperform : w.Grows (w.perform w.conn.connectEstablished) := grows_update
  exact hperform.bind fun _ hv => hv

theorem handleClose_grows (w : World T) : w.Grows w.handleClose := by
  have hperform : w.Grows (w.perform w.conn.handleClose) := grows_update
  exact hperform.bind fun _ hv => hv

theorem forceCloseInLoop_grows (w : World T) : w.Grows w.forceCloseInLoop := by
  unfold forceCloseInLoop
  split
  · exact handleClose_grows w
  · exact grows_same rfl

theorem connectDestroyed_custody (w : World T) : w.connectDestroyed.custody = w.custody := by
  unfold connectDestroyed
  split
  · rfl
  · rfl

theorem disconnect_grows (w : World T) : w.Grows w.disconnect := by
  have hperform : w.Grows (w.perform (.ok w.conn.connectDestroyedConnected)) := by
    apply grows_perform
    intro conn es hok g hg
    cases hok
    exact not_mem_updateChannel hg
  exact hperform.bind fun _ hv => hv

theorem channelRemove_grows (w : World T) : w.Grows w.channelRemove := by
  apply grows_check
  apply grows_check
  apply (ends_nested _ fun _ => trivial).bind
  rintro r -
  exact grows_same rfl

theorem startReadInLoop_grows (w : World T) :
    w.Grows (w.perform (.ok w.conn.startReadInLoop)) := by
  apply grows_perform
  intro conn es hok g hg
  cases (TcpConnection.startReadInLoop_spec (Except.ok.inj hok)).2 _ hg

theorem stopReadInLoop_grows (w : World T) :
    w.Grows (w.perform (.ok w.conn.stopReadInLoop)) := by
  apply grows_perform
  intro conn es hok g hg
  cases (TcpConnection.stopReadInLoop_spec (Except.ok.inj hok)).2 _ hg

theorem shutdownInLoop_grows (w : World T) (conn : TcpConnection) :
    w.Grows (w.perform (.ok (conn, conn.shutdownInLoop))) := by
  apply grows_perform
  intro conn' es hok g hg
  cases hok
  unfold TcpConnection.shutdownInLoop at hg
  split at hg
  · cases List.mem_singleton.mp hg
  · cases hg

theorem sendInLoop_grows (w : World T) (conn : TcpConnection) (message : List Byte)
    (r : WriteResult) : w.Grows (w.perform (conn.sendInLoop message r)) :=
  grows_perform fun _ _ hok => (TcpConnection.sendInLoop_writes hok).callbacks

/-- The map gives the connection to the functor that destroys it. -/
theorem removeConnectionInLoop_grows (w : World T) (baseQueue : Nat) :
    w.Grows ({ w with baseQueue := baseQueue } : World T).removeConnectionInLoop := by
  apply grows_check
  apply grows_check
  exact Custody.Grows.handOver w.custody (j := .conn .connectDestroyed) rfl rfl false baseQueue

theorem closeCallback_grows (w : World T) : w.Grows w.closeCallback := by
  unfold closeCallback
  split
  · exact removeConnectionInLoop_grows w w.baseQueue
  · apply grows_check
    have hgrows := Custody.Grows.mk (c := w.custody) [] w.connections (w.baseQueue + 1)
      (fun j hj => by cases hj) fun _ => Or.inl (Or.inr (Nat.succ_pos _))
    rw [List.append_nil] at hgrows
    exact hgrows

theorem callInLoop_grows (w : World T) (c : Call) (r : WriteResult) :
    w.Grows (w.callInLoop c r) := by
  cases c with
  | shutdown => exact (shutdownInLoop_grows { w with conn := _ } _).congr rfl
  -- beside callbacks, a call of the loop thread posts only this functor, which owns
  | forceClose =>
      exact Custody.Grows.append w.custody [.conn .forceCloseInLoop] (by decide)
  | forceCloseWithDelay => exact grows_same rfl
  | send message => exact sendInLoop_grows w w.conn message r

theorem call_grows (w : World T) (c : Call) (r : WriteResult) : w.Grows (w.call c r) := by
  unfold World.call
  split
  · exact callInLoop_grows w c r
  · exact grows_same rfl

theorem runJob_grows (w : World T) (j : Job) (r : WriteResult) : w.Grows (w.runJob j r) := by
  cases j with
  | user => exact grows_same rfl
  | connectEstablished => exact connectEstablished_grows w
  | conn f =>
    cases f with
    | forceCloseInLoop => exact forceCloseInLoop_grows w
    | forceCloseTimer => exact grows_same rfl
    | connectDestroyed => exact grows_same (connectDestroyed_custody w)
    | writeCompleteCallback => exact grows_same rfl
    | highWaterMarkCallback n => exact grows_same rfl
    -- bound to the raw `this`, so they assert first that it is still there
    | sendInLoop message => exact grows_check (sendInLoop_grows w w.conn message r)
    | shutdownInLoop => exact grows_check (shutdownInLoop_grows w w.conn)
    | startReadInLoop => exact grows_check (startReadInLoop_grows w)
    | stopReadInLoop => exact grows_check (stopReadInLoop_grows w)

theorem handle_grows (w : World T) (h : Channel.Handler) (n : ReadResult) (r : WriteResult) :
    w.Grows (w.handle h n r) := by
  cases h with
  | close => exact handleClose_grows w
  | error => exact grows_same rfl
  | read =>
      cases n with
      | data => exact grows_same rfl
      | eof => exact handleClose_grows w
      | error => exact grows_same rfl
  | write => exact grows_perform fun _ _ hok => (TcpConnection.handleWrite_writes hok).callbacks

theorem handleEvent_grows (w : World T) (a : ChannelPtr) : w.Grows (w.handleEvent a) := by
  unfold handleEvent
  split
  · exact grows_check (grows_same rfl)
  · exact grows_same rfl

/-- On another loop, the destructor of the server posts the functor that destroys the
connection. -/
theorem destroyServer_grows (hl : w.sameLoop = false) : w.Grows (.ok w.destroyServer) := by
  unfold destroyServer
  simp only [hl, Bool.false_eq_true, if_false]
  split
  · exact Custody.Grows.handOver w.custody (j := .conn .connectDestroyed) rfl rfl false
      w.baseQueue
  · rename_i hconn
    have hsame : ({ w with serverAlive := false, connections := false } : World T).custody =
        w.custody := by
      simp only [custody, Bool.not_eq_true] at hconn ⊢
      rw [hconn]
    exact grows_same hsame

/-- On its own loop, it destroys the connection itself. -/
theorem destroyServer_custody (hl : w.sameLoop = true) :
    w.destroyServer.custody = { w.custody with connections := false } := by
  unfold destroyServer
  simp only [hl, if_true]
  split
  · exact connectDestroyed_custody _
  · rfl

end World

/-! ## The invariant -/

namespace Shared

open World

variable {s s' : Shared T}

/-- Also if the user lets go, a functor that uses the connection has an owner beside it. -/
def Covered (s : Shared T) : Prop :=
  s.batches.Kept Job.raw Job.owns s.world.custody.upstream

/-- A pointer that the user does not hold any more is not needed: the last copy is dropped
where the connection is covered, and the server that has it on the same loop is destroyed
where it is covered without the map. -/
structure Keeps (s : Shared T) (a : SharedAction T) : Prop where
  drop : a = .drop → s.copies = 1 → s.Covered
  destroyServer : a = .own .destroyServer → s.world.connections = true → s.copies = 0 →
    s.batches.Kept Job.raw Job.owns (0 < s.world.baseQueue)

/-- The calls and reads that are counted are those that threads are in. The user has a copy as
long as one of these needs it, and a connection without a copy is covered by what the loop has
queued. -/
structure Safe (s : Shared T) : Prop where
  calls : Busy s.world.foreign .idle s.world.calls
  reads : Busy s.reading none s.reads
  inUse : s.unused = false → 0 < s.copies
  covered : s.copies = 0 → s.Covered

theorem jobs_eq (s : Shared T) : s.world.jobs = s.batches.rest ++ s.batches.pending := by
  show s.world.jobs = s.world.phase.rest ++ s.world.pending
  unfold World.jobs
  cases s.world.phase with
  | calling rest => rfl
  | _ => rfl

theorem batches_congr (hphase : s'.world.phase = s.world.phase)
    (hpending : s'.world.pending = s.world.pending) (hran : s'.ran = s.ran) :
    s'.batches = s.batches := by
  simp only [batches, hphase, hpending, hran]

theorem owners_pos_of_upstream (h : s.world.custody.upstream) : 0 < s.owners := by
  unfold owners
  rcases h with hconn | hbase
  · rw [if_pos (show s.world.connections = true from hconn)]
    omega
  · have hbase' : 0 < s.world.baseQueue := hbase
    omega

theorem Safe.owned (h : Safe s) : s.Owned := by
  intro hraw
  by_cases hcopies : s.copies = 0
  · rw [jobs_eq] at hraw
    rcases (h.covered hcopies).owned hraw with hup | hown
    · exact owners_pos_of_upstream hup
    · have hcount : 0 < s.batches.items.countP Job.owns := List.countP_pos_iff.mpr hown
      unfold owners
      omega
  · unfold owners
    omega

theorem unused_eq_false : s.unused = false ↔ 0 < s.world.calls ∨ 0 < s.reads := by
  unfold unused
  rw [Bool.and_eq_false_iff, decide_eq_false_iff_not, decide_eq_false_iff_not,
    Nat.pos_iff_ne_zero, Nat.pos_iff_ne_zero]

/-- A step that leaves the copies and their use alone. -/
theorem Safe.imp (h : Safe s) (hforeign : s'.world.foreign = s.world.foreign)
    (hcalls : s'.world.calls = s.world.calls) (hreading : s'.reading = s.reading)
    (hreads : s'.reads = s.reads) (hcopies : s'.copies = s.copies)
    (hcov : s.copies = 0 → s.Covered → s'.Covered) : Safe s' where
  calls := by
    rw [hforeign, hcalls]
    exact h.calls
  reads := by
    rw [hreading, hreads]
    exact h.reads
  inUse := by
    rw [unused_eq_false, hcalls, hreads, hcopies, ← unused_eq_false]
    exact h.inUse
  covered := by
    rw [hcopies]
    intro hzero
    exact hcov hzero (h.covered hzero)

/-- A step that leaves a copy with the user. -/
theorem Safe.of_copies (hcalls : Busy s.world.foreign .idle s.world.calls)
    (hreads : Busy s.reading none s.reads) (hcopies : 0 < s.copies) : Safe s where
  calls := hcalls
  reads := hreads
  inUse _ := hcopies
  covered hzero := absurd hzero (Nat.ne_of_gt hcopies)

theorem Covered.grows {w : World T} (h : s.Covered)
    (hg : Custody.Grows s.world.custody w.custody) : { s with world := w }.Covered := by
  unfold Covered
  generalize hc : w.custody = c at hg ⊢
  cases hg with
  | mk js connections baseQueue hjs hup =>
      have hphase : w.phase = s.world.phase := congrArg Custody.phase hc
      have hpending : w.pending = s.world.pending ++ js := congrArg Custody.pending hc
      -- the batch that is running stays; the functors go to the end of the queue
      have hbatches : ({ s with world := w } : Shared T).batches = s.batches.push js := by
        simp only [batches, Batches.push, hphase, hpending]
      rw [hbatches]
      exact Batches.Kept.push h hjs hup

theorem Safe.grows {r : Except Assertion (World T)} (h : Safe s) (hg : s.world.Grows r) :
    Ends (fun w => Safe { s with world := w }) (fun _ => True) r := by
  apply hg.mono _ fun _ h => h
  intro w hw
  generalize hc : w.custody = c at hw
  have hgrows := hw
  cases hw with
  | mk js connections baseQueue hjs hup =>
      rw [← hc] at hgrows
      have hforeign : w.foreign = s.world.foreign := congrArg Custody.foreign hc
      have hcalls : w.calls = s.world.calls := congrArg Custody.calls hc
      exact h.imp hforeign hcalls rfl rfl rfl fun _ hcov => hcov.grows hgrows

/-- The loop goes on with its functors. -/
theorem Safe.goOn (h : Safe s) (phase : Phase) (pending : List Job) (ran : List Job)
    (hkept : s.Covered → Batches.Kept Job.raw Job.owns s.world.custody.upstream
      { ran := ran, rest := phase.rest, pending := pending }) :
    Safe { s with world := { s.world with phase := phase, pending := pending }, ran := ran } :=
  h.imp rfl rfl rfl rfl rfl fun _ hcov => hkept hcov

/-- The server is destroyed on the loop of the connection. -/
theorem Safe.destroyServer (h : Safe s) (hk : Keeps s (.own .destroyServer))
    (hl : s.world.sameLoop = true) : Safe { s with world := s.world.destroyServer } := by
  have hc := destroyServer_custody hl
  refine h.imp (congrArg Custody.foreign hc) (congrArg Custody.calls hc) rfl rfl rfl ?_
  intro hcopies hcov
  have hbatches : ({ s with world := s.world.destroyServer } : Shared T).batches = s.batches :=
    batches_congr (congrArg Custody.phase hc) (congrArg Custody.pending hc) rfl
  unfold Covered
  rw [hbatches]
  show Batches.Kept Job.raw Job.owns s.world.destroyServer.custody.upstream s.batches
  rw [hc]
  by_cases hconn : s.world.connections = true
  · exact (hk.destroyServer rfl hconn hcopies).imp Or.inr
  · exact hcov.imp fun hup => hup.imp_left fun h => absurd h hconn

/-- A thread in a call has the copy that it makes the call with. -/
theorem Safe.busy (h : Safe s) {thread : T} {f : Foreign} (hf : s.world.foreign thread = f)
    (hne : f ≠ .idle) : s.world.foreign thread ≠ .idle ∧ 0 < s.copies := by
  have hbusy : s.world.foreign thread ≠ .idle := by
    rw [hf]
    exact hne
  exact ⟨hbusy, h.inUse (unused_eq_false.mpr (Or.inl (h.calls.pos hbusy)))⟩

variable [DecidableEq T]

/-- Steps of the connection's surroundings. -/
theorem Safe.own {a : Action T} {r : Except Assertion (World T)} (h : Safe s)
    (hk : Keeps s (.own a)) (ha : s.allows a = true) (hm : Moves s.world a r) :
    Ends (fun w => Safe { s with world := w, ran := s.ranBehind a }) (fun _ => True) r := by
  cases hm with
  | call => exact h.grows (call_grows _ _ _)
  | startRead => exact h.grows (startReadInLoop_grows _)
  | stopRead => exact h.grows (stopReadInLoop_grows _)
  | timerDead => exact h.grows (grows_same rfl)
  | timer =>
      exact h.grows ((call_grows { s.world with timers := s.world.timers - 1 } _ _).congr rfl)
  | destroyServer _ hl => exact h.destroyServer hk hl
  | updateOther =>
      refine h.grows ((ends_nested _ fun _ => trivial).bind ?_)
      rintro r -
      exact grows_same rfl
  | removeOther => exact h.grows (grows_same rfl)
  | userReturns => exact h.grows (grows_same rfl)
  | callbackReturns => exact h.grows (grows_same rfl)
  | establish => exact h.grows ((connectEstablished_grows _).congr rfl)
  | closeCallback => exact h.grows ((closeCallback_grows _).congr rfl)
  | disconnect => exact h.grows ((disconnect_grows _).congr rfl)
  | remove => exact h.grows ((channelRemove_grows _).congr rfl)
  | handle => exact h.grows ((handle_grows _ _ _ _).congr rfl)
  | handlersDone => exact h.grows (grows_same rfl)
  -- no batch begins or ends here, so what is left of it stays empty
  | @poll active _ hp =>
      have hnext := h.goOn (.handling active none active) s.world.pending s.ran ?_
      · exact hnext.grows (grows_same rfl)
      · intro hcov
        unfold Covered batches at hcov
        rw [hp] at hcov
        exact hcov
  | @nextChannel active _ a todo hp =>
      have hnext := h.goOn (.handling active (some a) todo) s.world.pending s.ran ?_
      · exact hnext.grows (handleEvent_grows _ a)
      · intro hcov
        unfold Covered batches at hcov
        rw [hp] at hcov
        exact hcov
  -- `functors.swap(pendingFunctors_)`
  | handled => exact h.goOn (.calling s.world.pending) [] s.ran fun hcov => Batches.Kept.swap hcov
  -- the functor has run, and owns what it owns until the batch is over
  | @nextJob j rest _ hp =>
      have hran : s.ranBehind (.nextJob ‹_›) = s.ran ++ [j] := by
        simp only [ranBehind, hp]
      have hnext := h.goOn (.calling rest) s.world.pending (s.ran ++ [j]) ?_
      · rw [hran]
        exact hnext.grows (runJob_grows _ j _)
      · intro hcov
        refine Batches.Kept.next hcov ?_
        show s.world.phase.rest = _
        rw [hp]
        rfl
  -- the vector of functors is destroyed: nothing of it was left to run
  | jobsDone hp =>
      refine h.goOn .polling s.world.pending [] ?_
      intro hcov
      have hrest : s.batches.rest = [] := by
        show s.world.phase.rest = _
        rw [hp]
        rfl
      have hdone := Batches.Kept.done hcov hrest
      unfold Batches.done at hdone
      rw [hrest] at hdone
      exact hdone
  | queueUser => exact h.grows (Custody.Grows.append s.world.custody [.user] (by decide))
  -- another thread begins a call through a copy, which stays until the call has returned
  | test hf =>
      have hcopies : 0 < s.copies := by
        simp only [allows, Bool.and_eq_true, decide_eq_true_eq] at ha
        exact ha.1
      exact .of_copies (h.calls.begin hf (by rintro ⟨⟩)) h.reads hcopies
  | set hf =>
      have hbusy := h.busy hf (by rintro ⟨⟩)
      exact .of_copies (h.calls.goOn hbusy.1 (by rintro ⟨⟩)) h.reads hbusy.2
  | post hf =>
      have hbusy := h.busy hf (by rintro ⟨⟩)
      exact .of_copies (h.calls.finish hbusy.1) h.reads hbusy.2
  | baseRemove => exact h.grows (removeConnectionInLoop_grows _ _)
  | baseDestroyServer hl => exact h.grows (destroyServer_grows hl)
  | destruct =>
      refine h.grows ((ends_nested _ fun _ => trivial).bind ?_)
      rintro _ -
      exact grows_check (grows_check (grows_check (grows_same rfl)))

omit [DecidableEq T] in
/-- A copy is dropped: another one is left, or the condition is met. -/
theorem Safe.drop (h : Safe s) (hk : Keeps s .drop) (hused : s.copies = 1 → s.unused = true) :
    Safe { s with copies := s.copies - 1 } := by
  refine ⟨h.calls, h.reads, ?_, ?_⟩
  · intro hcalls
    have hcopies := h.inUse hcalls
    have hlast : s.copies ≠ 1 := by
      intro hone
      exact absurd ((hused hone).symm.trans hcalls) (by decide)
    show 0 < s.copies - 1
    omega
  · intro hzero
    -- the condition is about the last copy only
    by_cases hone : s.copies = 1
    · exact hk.drop rfl hone
    · have hzero' : s.copies - 1 = 0 := hzero
      exact h.covered (by omega)

theorem Safe.step {a : SharedAction T} {r : Except Assertion (Shared T)} (h : Safe s)
    (hk : Keeps s a) (hs : step s a = some r) : Ends Safe (fun _ => True) r := by
  cases a with
  | own a =>
      simp only [Shared.step] at hs
      split at hs
      · rename_i ha
        obtain ⟨r', hr', rfl⟩ := Option.map_eq_some_iff.mp hs
        have hends := h.own hk ha (moves_of_step hr')
        cases r' with
        | ok w => exact hends
        | error e => trivial
      · cases hs
  | copy =>
      obtain ⟨-, rfl⟩ := of_guard hs
      exact Safe.of_copies h.calls h.reads (Nat.succ_pos _)
  | drop =>
      obtain ⟨hd, rfl⟩ := of_guard hs
      exact h.drop hk hd.2
  | read thread c =>
      simp only [Shared.step] at hs
      split at hs
      · rename_i hread hf
        obtain ⟨hcopies, rfl⟩ := of_guard hs
        exact .of_copies h.calls (h.reads.begin hread (by rintro ⟨⟩)) hcopies
      · cases hs
  | post thread =>
      simp only [Shared.step] at hs
      split at hs
      · rename_i c hread
        cases hs
        have hbusy : s.reading thread ≠ none := by
          rw [hread]
          rintro ⟨⟩
        have hcopies := h.inUse (unused_eq_false.mpr (Or.inr (h.reads.pos hbusy)))
        exact .of_copies h.calls (h.reads.finish hbusy) hcopies
      · cases hs

theorem next_drop (hn : runs.Next s .drop s') : s' = { s with copies := s.copies - 1 } := by
  obtain ⟨-, hok⟩ := of_guard hn
  cases hok
  rfl

omit [DecidableEq T] in
theorem start_safe (h : Start s) : Safe s where
  calls := by
    rw [h.world.calls]
    exact Busy.none h.world.foreign
  reads := by
    rw [h.reads]
    exact Busy.none h.reading
  inUse := by
    rw [unused_eq_false, h.world.calls, h.reads]
    omega
  covered _ := by
    have hup : s.world.custody.upstream := Or.inl h.world.server.1
    exact ⟨fun _ => Or.inl hup, fun _ => Or.inl hup⟩

/-! ## Runs -/

/-- The loop thread is not in a batch of functors, nor in a function of the connection. -/
structure Idle (s : Shared T) : Prop where
  ran : s.ran = []
  rest : s.world.phase.rest = []
  stack : ∀ f ∈ s.world.stack, f = .user

omit [DecidableEq T] in
theorem Idle.owned_iff (h : Idle s) (hcopies : s.copies = 0) : s.Owned ↔ s.Covered := by
  have hitems : s.batches.items = s.world.pending := by
    show s.ran ++ s.world.phase.rest ++ s.world.pending = _
    rw [h.ran, h.rest, List.nil_append, List.nil_append]
  have hstack : s.world.stack.countP Frame.owns = 0 := by
    apply List.countP_eq_zero.mpr
    intro f hf
    rw [h.stack f hf]
    decide
  have hrest : ¬ ∃ j ∈ s.batches.rest, j.raw = true := by
    rintro ⟨j, hj, -⟩
    rw [show s.batches.rest = [] from h.rest] at hj
    cases hj
  constructor
  · intro howned
    refine ⟨?_, fun hraw => absurd hraw hrest⟩
    intro hraw
    have hpos : 0 < s.owners := by
      apply howned
      rw [jobs_eq, show s.batches.rest = [] from h.rest, List.nil_append]
      exact hraw
    unfold owners at hpos
    rw [hcopies, hstack, hitems] at hpos
    -- an owner is the map, a removal on its way or a functor; no copy or frame is left
    by_cases hup : s.world.custody.upstream
    · exact Or.inl hup
    · refine Or.inr (List.countP_pos_iff.mp ?_)
      have hconn : s.world.connections ≠ true := fun hc => hup (Or.inl hc)
      have hbase : ¬ 0 < s.world.baseQueue := fun hb => hup (Or.inr hb)
      rw [if_neg hconn] at hpos
      show 0 < s.world.pending.countP Job.owns
      omega
  · intro hcov hraw
    rw [jobs_eq] at hraw
    rcases Batches.Kept.owned hcov hraw with hup | hown
    · exact owners_pos_of_upstream hup
    · have hcount : 0 < s.batches.items.countP Job.owns := List.countP_pos_iff.mpr hown
      unfold owners
      omega

/-- In every run that drops the last copies of the user where the connection is covered, each
functor that is left to use the connection has an owner beside it; and where a copy is dropped
between two batches, a functor has an owner behind that only if it meets the condition. -/
theorem raw_owned (t : Shared T) (h : runs.Reachable Keeps t) :
    t.Owned ∧ ∀ u, runs.Next t .drop u → t.Idle → (u.Owned ↔ Keeps t .drop) := by
  have hsafe : Safe t := by
    apply h.invariant (fun _ h₀ => start_safe h₀)
    intro s a u hs hk hn
    exact hs.step hk hn
  refine ⟨hsafe.owned, ?_⟩
  intro u hn hidle
  constructor
  · intro howned
    refine ⟨?_, fun hd => by cases hd⟩
    intro _ hone
    obtain rfl := next_drop hn
    have hidle' : Idle { t with copies := t.copies - 1 } := ⟨hidle.ran, hidle.rest, hidle.stack⟩
    exact (hidle'.owned_iff (by simp only [hone])).mp howned
  · intro hk
    have hsafe' : Safe u := hsafe.step hk hn
    exact hsafe'.owned

/-- A connection that has been accepted, with no pointer of the user. -/
def accepted (usePoll : Bool) : Shared T where
  world := Connection.accepted usePoll
  copies := 0
  reading := fun _ => none
  reads := 0
  ran := []

omit [DecidableEq T] in
theorem accepted_start (usePoll : Bool) : Start (accepted (T := T) usePoll) where
  world := Connection.accepted_start usePoll
  copies := rfl
  reading := fun _ => rfl
  reads := rfl
  ran := rfl

/-- The user's first callback keeps a pointer, with which another thread calls
`startRead()`. -/
def startsRead : List (SharedAction Unit) :=
  [.own .establish, .copy, .own .returns, .own .returns, .own .handled, .own .jobsDone,
    .read () .startRead, .post ()]

/-- The pointer is still there. -/
theorem raw_owned_sample : ∃ t : Shared Unit, runs.Reachable Keeps t ∧
    .conn .startReadInLoop ∈ t.world.jobs ∧ t.Owned := by
  have hrun := System.run_of_exec
    (rfl : runs.exec (accepted false) startsRead = some (.ok _))
  have hkeeps : ∀ a ∈ startsRead, ∀ u : Shared Unit, Keeps u a := by
    intro a ha u
    constructor
    · rintro rfl
      simp [startsRead] at ha
    · rintro rfl
      simp [startsRead] at ha
  have hreach := System.Reachable.run (System.Reachable.of_init (accepted_start false))
    (hrun.of_actions hkeeps)
  exact ⟨_, hreach, List.mem_singleton_self _, (raw_owned _ hreach).1⟩

/-- The user's first callback keeps a pointer. The peer closes the connection, which is
removed and destroyed but for this pointer; another thread calls `startRead()` with it, and
drops it when the call has returned. -/
def droppedBehindCall : List (SharedAction Unit) :=
  [.own .establish, .copy, .own .returns, .own .returns, .own .handled, .own .jobsDone,
    .own (.poll [2] { pollHup := true }), .own .nextChannel,
    .own (.handle .error (.accepted 0)), .own .returns, .own .closeCallback,
    .own (.handle .error (.accepted 0)), .own .handled, .own (.nextJob (.accepted 0)),
    .own .remove, .own .jobsDone, .read () .startRead, .post (), .drop]

/-- The functor is left without an owner of its connection, which is destroyed before the
functor is called. -/
theorem raw_unowned : (∃ t : Shared Unit, runs.Reachable System.always t ∧
      t.world.jobs = [.conn .startReadInLoop] ∧ t.owners = 0) ∧
    (∃ t : Shared Unit, runs.Reachable System.always t ∧
      runs.Fails t (.own (.nextJob (.accepted 0))) .deadConnection) ∧
    ¬ ∀ t : Shared Unit, runs.Reachable System.always t → t.Owned := by
  have hrun := System.run_of_exec
    (rfl : runs.exec (accepted false) droppedBehindCall = some (.ok _))
  have hrun' := System.run_of_exec
    (rfl : runs.exec (accepted false) (droppedBehindCall ++
      [.own .destruct, .own (.poll [] {}), .own .handled]) = some (.ok _))
  have hreach := System.Reachable.run (System.Reachable.of_init (accepted_start false)) hrun
  have hreach' := System.Reachable.run (System.Reachable.of_init (accepted_start false)) hrun'
  refine ⟨⟨_, hreach, rfl, rfl⟩, ⟨_, hreach', rfl⟩, ?_⟩
  intro hall
  have hpos := hall _ hreach ⟨_, List.mem_singleton_self _, rfl⟩
  exact absurd hpos (by decide)

end Shared

end Zing.Net.Connection
