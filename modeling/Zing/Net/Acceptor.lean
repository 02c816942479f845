import Zing.Lib.Descriptors
import Zing.Lib.System
import Zing.Net.TcpConnection

set_option autoImplicit false

/-! # `Acceptor`

`handleRead` accepts one connection and passes its descriptor on, or closes it. When the process
has no descriptor left it gives up the one it keeps in reserve, accepts with it and closes the
connection, and opens `/dev/null` again.

The outcomes of the calls of the kernel are arguments, and so is `errno` as the call finds it;
logging is taken to leave it as it is.
Between two calls the rest of the program opens and closes descriptors of its own, those that
were passed on included. The test of `handleRead` for a descriptor is `connfd > 0`, so that
descriptor 0 is taken for a failure: `acceptor_leaks_iff` shows that it leaks, and nothing else.
-/

namespace Zing.Net

open Zing.Lib

def EPERM : Errno := 1
def EINTR : Errno := 4
def EAGAIN : Errno := 11
def EMFILE : Errno := 24
def EPROTO : Errno := 71
def ECONNABORTED : Errno := 103

namespace Acceptor

/-- The errors of `accept` on which `sockets::accept` returns; on others it ends the program. -/
def expectedErrors : List Errno := [EAGAIN, ECONNABORTED, EINTR, EPROTO, EPERM, EMFILE]

/-- `LOG_FATAL` -/
inductive Fault
  | unexpectedError (savedErrno : Errno)
  deriving DecidableEq, Repr

/-- The outcome of a call that returns a descriptor, or `-1` with an `errno`. -/
abbrev Outcome := Except Errno Nat

/-- The result of the call. -/
def result : Outcome → Int
  | .ok fd => fd
  | .error _ => -1

/-- The outcomes of the calls that `handleRead` may make: `accept4`, and where there is no
descriptor left `accept` and `open`. -/
structure Outcomes where
  errno : Errno
  accept4 : Outcome
  accept : Outcome
  devNull : Outcome

/-- An `Acceptor` in its process. `accepted` are the files that its calls of `accept` have handed
out, `passed` those that its callback was called with, `closed` those that it has closed, and
`others` those that the rest of the program has opened. -/
structure State where
  fds : Descriptors
  errno : Errno
  newConnectionCallback : Bool
  idleFd : Int
  accepted : List Nat
  passed : List (Option Nat)
  closed : List Nat
  others : List Nat

namespace State

/-! ## Calls of the kernel -/

/-- A call that hands out a descriptor or fails. -/
def call (s : State) (o : Outcome) : Option State :=
  match o with
  | .ok fd => (s.fds.handOut fd).map fun fds => { s with fds := fds }
  | .error errno => some { s with errno := errno }

/-- `accept` -/
def accept (s : State) (o : Outcome) : Option State :=
  match o with
  | .ok _ => (s.call o).map fun t => { t with accepted := s.accepted ++ [s.fds.handedOut] }
  | .error _ => s.call o

def close (s : State) (fd : Int) : State :=
  { s with fds := s.fds.close fd, closed := s.closed ++ (s.fds.lookup fd).toList }

/-! ## The functions -/

/-- `sockets::accept` -/
def socketAccept (s : State) (o : Outcome) : Option (Except Fault State) :=
  match o with
  | .ok _ => (s.accept o).map .ok
  | .error savedErrno =>
      if savedErrno ∈ expectedErrors then (s.accept o).map .ok
      else some (.error (.unexpectedError savedErrno))

/-- `newConnectionCallback_(connfd, peerAddr)` -/
def newConnection (s : State) (connfd : Int) : State :=
  { s with passed := s.passed ++ [s.fds.lookup connfd] }

/-- `handleRead` when no descriptor is left. -/
def useIdle (s : State) (o : Outcomes) : Option State := do
  let s := s.close s.idleFd
  let s ← s.accept o.accept
  let s := { s with idleFd := result o.accept }
  let s := s.close s.idleFd
  let s ← s.call o.devNull
  return { s with idleFd := result o.devNull }

/-- `handleRead` after its first call. -/
def accepts (s : State) (o : Outcomes) : Option State :=
  let connfd := result o.accept4
  if connfd > 0 then
    if s.newConnectionCallback then some (s.newConnection connfd) else some (s.close connfd)
  else if s.errno = EMFILE then
    s.useIdle o
  else
    some s

def handleRead (s : State) (o : Outcomes) : Option (Except Fault State) :=
  match { s with errno := o.errno }.socketAccept o.accept4 with
  | some (.ok s) => (s.accepts o).map .ok
  | r => r

end State

/-! ## Runs -/

inductive Action
  | setNewConnectionCallback
  | handleRead (o : Outcomes)
  | openOther (fd : Nat)
  | closeOther (fd : Nat)

/-- The rest of the program closes what it has opened or was passed. -/
def State.Others (s : State) (fd : Nat) : Prop :=
  ∃ k, s.fds.lookup fd = some k ∧ (k ∈ s.others ∨ some k ∈ s.passed)

instance (s : State) (fd : Nat) : Decidable (s.Others fd) :=
  match h : s.fds.lookup fd with
  | none => isFalse (by rintro ⟨k, hk, -⟩; rw [h] at hk; cases hk)
  | some k => decidable_of_iff (k ∈ s.others ∨ some k ∈ s.passed)
      ⟨fun hk => ⟨k, h, hk⟩, fun ⟨k', hk', hmem⟩ => by
        rw [h, Option.some.injEq] at hk'
        rw [hk']
        exact hmem⟩

def step (s : State) : Action → Option (Except Fault State)
  | .setNewConnectionCallback => some (.ok { s with newConnectionCallback := true })
  | .handleRead o => s.handleRead o
  | .openOther fd => (s.fds.handOut fd).map fun fds =>
      .ok { s with fds := fds, others := s.others ++ [s.fds.handedOut] }
  | .closeOther fd =>
      if s.Others fd then some (.ok { s with fds := s.fds.close fd }) else none

/-- The constructor has opened `/dev/null`; the other descriptors are not its own. -/
structure Start (s : State) : Prop where
  wf : s.fds.WF
  idle : ∃ k, s.fds.lookup s.idleFd = some k ∧ k ∉ s.others
  accepted : s.accepted = []
  passed : s.passed = []
  closed : s.closed = []
  others : ∀ k ∈ s.others, k < s.fds.handedOut

/-- The runs of an acceptor. -/
def runs : System State Action Fault where
  init := Start
  step := step

/-! ## What is to hold -/

/-- Each file that was accepted has been passed on once or closed once, only open descriptors
were passed on, and the one in reserve is open, if there is one. -/
structure NoLeak (s : State) : Prop where
  once : ∀ k ∈ s.accepted, s.passed.count (some k) + s.closed.count k = 1
  passed_open : none ∉ s.passed
  idle_open : 0 ≤ s.idleFd → ∃ k, s.fds.lookup s.idleFd = some k

/-- The first `accept` of a call of `handleRead` does not return descriptor 0. -/
def NotZero (_ : State) (a : Action) : Prop := ∀ o, a = .handleRead o → o.accept4 ≠ .ok 0

/-! ## What holds in the course of a call -/

/-- The account of the files, where those in `pending` are still to be passed on or closed. -/
structure Account (s : State) (pending : List Nat) : Prop where
  wf : s.fds.WF
  once : ∀ k ∈ s.accepted, s.passed.count (some k) + s.closed.count k
    = if k ∈ pending then 0 else 1
  pending_accepted : ∀ k ∈ pending, k ∈ s.accepted
  pending_nodup : pending.Nodup
  accepted_lt : ∀ k ∈ s.accepted, k < s.fds.handedOut
  passed_open : none ∉ s.passed
  passed_accepted : ∀ k, some k ∈ s.passed → k ∈ s.accepted
  closed_lt : ∀ k ∈ s.closed, k < s.fds.handedOut
  others_lt : ∀ k ∈ s.others, k < s.fds.handedOut

/-- The descriptor in reserve, if there is one, is open, and it is the acceptor's own. -/
structure Idle (s : State) : Prop where
  idle_open : 0 ≤ s.idleFd → ∃ k, s.fds.lookup s.idleFd = some k
  own : ∀ k, s.fds.lookup s.idleFd = some k → k ∉ s.others ∧ k ∉ s.accepted

variable {s t : State} {pending : List Nat} {o : Outcome} {fd : Int} {k : Nat}

/-! ### The number of the next file -/

theorem not_mem_of_bound {l : List Nat} {n : Nat} (h : ∀ k ∈ l, k < n) : n ∉ l :=
  fun hin => Nat.lt_irrefl n (h n hin)

theorem bound_append {l : List Nat} {n : Nat} (h : ∀ k ∈ l, k < n) : ∀ k ∈ l ++ [n], k < n + 1 := by
  simp only [List.mem_append, List.mem_singleton]
  rintro k (hk | rfl)
  · exact Nat.lt_succ_of_lt (h k hk)
  · exact Nat.lt_succ_self k

theorem not_mem_append {l : List Nat} {n : Nat} (h : k ∉ l) (hlt : k < n) : k ∉ l ++ [n] := by
  simp only [List.mem_append, List.mem_singleton, not_or]
  exact ⟨h, Nat.ne_of_lt hlt⟩

theorem count_append_one {α : Type} [BEq α] [LawfulBEq α] [DecidableEq α] (l : List α) (a b : α) :
    (l ++ [b]).count a = l.count a + if a = b then 1 else 0 := by
  rw [List.count_append, List.count_singleton]
  simp only [beq_iff_eq, eq_comm (a := b)]

theorem Account.count_fresh (h : Account s pending) :
    s.passed.count (some s.fds.handedOut) + s.closed.count s.fds.handedOut = 0 := by
  have hpassed : some s.fds.handedOut ∉ s.passed := fun hin =>
    not_mem_of_bound h.accepted_lt (h.passed_accepted _ hin)
  have hclosed : s.fds.handedOut ∉ s.closed := not_mem_of_bound h.closed_lt
  rw [List.count_eq_zero_of_not_mem hpassed, List.count_eq_zero_of_not_mem hclosed]

/-! ### Calls of the kernel -/

theorem Account.call (h : Account s pending) (hc : s.call o = some t) : Account t pending := by
  cases o with
  | error errno =>
      cases hc
      exact { h with }
  | ok fd =>
      obtain ⟨fds, hfds, ht⟩ := Option.map_eq_some_iff.mp hc
      cases ht
      have hle : s.fds.handedOut ≤ fds.handedOut := by
        rw [Descriptors.handedOut_handOut hfds]
        exact Nat.le_succ _
      exact
        { h with
          wf := h.wf.handOut hfds
          accepted_lt := fun k hk => Nat.lt_of_lt_of_le (h.accepted_lt k hk) hle
          closed_lt := fun k hk => Nat.lt_of_lt_of_le (h.closed_lt k hk) hle
          others_lt := fun k hk => Nat.lt_of_lt_of_le (h.others_lt k hk) hle }

/-- What is accepted is pending. -/
theorem Account.accept_ok (h : Account s pending) {n : Nat} (hc : s.accept (.ok n) = some t) :
    Account t (s.fds.handedOut :: pending) ∧ t.fds.lookup n = some s.fds.handedOut := by
  obtain ⟨u, hu, ht⟩ := Option.map_eq_some_iff.mp hc
  have hacc := h.call hu
  obtain ⟨fds, hfds, hu⟩ := Option.map_eq_some_iff.mp hu
  cases hu
  cases ht
  have hfresh : s.fds.handedOut ∉ s.accepted := not_mem_of_bound h.accepted_lt
  refine ⟨{ hacc with once := ?_, pending_accepted := ?_, pending_nodup := ?_,
                      accepted_lt := ?_, passed_accepted := ?_ }, ?_⟩
  · intro k hk
    rcases List.mem_append.mp hk with hk | hk
    · have hne : k ≠ s.fds.handedOut := fun heq => hfresh (heq ▸ hk)
      have hiff : k ∈ s.fds.handedOut :: pending ↔ k ∈ pending := by simp [hne]
      simp only [hiff]
      exact h.once k hk
    · rw [List.mem_singleton.mp hk, if_pos List.mem_cons_self]
      exact h.count_fresh
  · intro k hk
    rcases List.mem_cons.mp hk with rfl | hk
    · exact List.mem_append_right _ (List.mem_singleton_self _)
    · exact List.mem_append_left _ (h.pending_accepted k hk)
  · exact List.nodup_cons.mpr ⟨fun hin => hfresh (h.pending_accepted _ hin), h.pending_nodup⟩
  · rw [Descriptors.handedOut_handOut hfds]
    exact bound_append h.accepted_lt
  · exact fun k hk => List.mem_append_left _ (h.passed_accepted k hk)
  · exact Descriptors.lookup_handOut_self hfds

theorem Account.accept_error (h : Account s pending) {errno : Errno}
    (hc : s.accept (.error errno) = some t) : Account t pending := h.call (o := .error errno) hc

/-- A descriptor that was not accepted is closed, or none. -/
theorem Account.close_own (h : Account s pending)
    (hfd : ∀ k, s.fds.lookup fd = some k → k ∉ s.accepted) : Account (s.close fd) pending := by
  refine { h with wf := h.wf.close fd, once := ?_, closed_lt := ?_ }
  · intro k hk
    have hnot : k ∉ (s.fds.lookup fd).toList := by
      intro hin
      exact hfd k (Option.mem_toList.mp hin) hk
    show s.passed.count (some k) + (s.closed ++ (s.fds.lookup fd).toList).count k = _
    rw [List.count_append, List.count_eq_zero_of_not_mem hnot]
    exact h.once k hk
  · intro k hk
    rcases List.mem_append.mp hk with hk | hk
    · exact h.closed_lt k hk
    · exact h.wf fd k (Option.mem_toList.mp hk)

/-- The account of a pending file is settled. -/
theorem Account.settle (h : Account s (k :: pending)) {passed : List (Option Nat)}
    {closed : List Nat} {fds : Descriptors} (hwf : fds.WF)
    (hnum : fds.handedOut = s.fds.handedOut)
    (hcount : ∀ j, passed.count (some j) + closed.count j
      = s.passed.count (some j) + s.closed.count j + if j = k then 1 else 0)
    (hopen : none ∉ passed) (hpassed : ∀ j, some j ∈ passed → j = k ∨ some j ∈ s.passed)
    (hclosed : ∀ j ∈ closed, j = k ∨ j ∈ s.closed) :
    Account { s with fds := fds, passed := passed, closed := closed } pending := by
  have hk := h.pending_accepted k List.mem_cons_self
  obtain ⟨hnot, hnodup⟩ := List.nodup_cons.mp h.pending_nodup
  refine
    { wf := hwf, once := ?_, pending_accepted := ?_, pending_nodup := hnodup
      accepted_lt := ?_, passed_open := hopen, passed_accepted := ?_, closed_lt := ?_
      others_lt := ?_ }
  · intro j hj
    have hold := h.once j hj
    show passed.count (some j) + closed.count j = _
    rw [hcount, hold]
    by_cases heq : j = k
    · subst heq
      rw [if_pos List.mem_cons_self, if_pos rfl, if_neg hnot]
    · have hiff : j ∈ k :: pending ↔ j ∈ pending := by simp [heq]
      simp only [hiff, if_neg heq, Nat.add_zero]
  · exact fun j hj => h.pending_accepted j (List.mem_cons_of_mem k hj)
  · exact fun j hj => Nat.lt_of_lt_of_eq (h.accepted_lt j hj) hnum.symm
  · intro j hj
    rcases hpassed j hj with rfl | hj
    · exact hk
    · exact h.passed_accepted j hj
  · intro j hj
    rw [hnum]
    rcases hclosed j hj with rfl | hj
    · exact h.accepted_lt _ hk
    · exact h.closed_lt j hj
  · exact fun j hj => Nat.lt_of_lt_of_eq (h.others_lt j hj) hnum.symm

theorem Account.close_pending (h : Account s (k :: pending)) (hfd : s.fds.lookup fd = some k) :
    Account (s.close fd) pending := by
  have hclose : s.close fd = { s with
      fds := s.fds.close fd, passed := s.passed, closed := s.closed ++ [k] } := by
    rw [State.close, hfd]
    rfl
  rw [hclose]
  refine h.settle (h.wf.close fd) rfl ?_ h.passed_open (fun j hj => Or.inr hj) ?_
  · intro j
    rw [count_append_one, Nat.add_assoc]
  · intro j hj
    rcases List.mem_append.mp hj with hj | hj
    · exact Or.inr hj
    · exact Or.inl (List.mem_singleton.mp hj)

theorem Account.newConnection (h : Account s (k :: pending)) (hfd : s.fds.lookup fd = some k) :
    Account (s.newConnection fd) pending := by
  have hpass : s.newConnection fd = { s with
      fds := s.fds, passed := s.passed ++ [some k], closed := s.closed } := by
    rw [State.newConnection, hfd]
  rw [hpass]
  refine h.settle h.wf rfl ?_ ?_ ?_ (fun j hj => Or.inr hj)
  · intro j
    rw [count_append_one, Nat.add_right_comm]
    simp only [Option.some.injEq]
  · simp [h.passed_open]
  · intro j hj
    rcases List.mem_append.mp hj with hj | hj
    · exact Or.inr hj
    · rw [List.mem_singleton, Option.some.injEq] at hj
      exact Or.inl hj

/-! ### The descriptor in reserve -/

/-- Calls that hand out another descriptor leave the one in reserve. -/
theorem Idle.handOut (h : Idle s) {fds : Descriptors} {n : Nat}
    (hfds : s.fds.handOut n = some fds) : fds.lookup s.idleFd = s.fds.lookup s.idleFd := by
  by_cases hpos : 0 ≤ s.idleFd
  · obtain ⟨k, hk⟩ := h.idle_open hpos
    exact Descriptors.lookup_handOut_of_ne hfds (Descriptors.ne_of_handOut hfds hk)
  · rw [Descriptors.lookup, Descriptors.lookup, if_neg hpos, if_neg hpos]

/-- A step that leaves the descriptor in reserve, and makes it nobody else's. -/
theorem Idle.kept (h : Idle s) (hfd : t.idleFd = s.idleFd)
    (hsame : t.fds.lookup s.idleFd = s.fds.lookup s.idleFd)
    (hown : ∀ k, s.fds.lookup s.idleFd = some k → k ∉ t.others ∧ k ∉ t.accepted) : Idle t := by
  constructor
  · rw [hfd, hsame]
    exact h.idle_open
  · rw [hfd, hsame]
    exact hown

theorem Idle.accept (h : Idle s) (hwf : s.fds.WF) (hc : s.accept o = some t) : Idle t := by
  cases o with
  | error errno =>
      cases hc
      exact { h with }
  | ok n =>
      obtain ⟨u, hu, ht⟩ := Option.map_eq_some_iff.mp hc
      obtain ⟨fds, hfds, hu⟩ := Option.map_eq_some_iff.mp hu
      cases hu
      cases ht
      refine h.kept rfl (h.handOut hfds) fun k hk => ?_
      obtain ⟨hothers, haccepted⟩ := h.own k hk
      exact ⟨hothers, not_mem_append haccepted (hwf _ k hk)⟩

theorem Idle.close_other (h : Idle s) (hne : s.idleFd ≠ fd) : Idle (s.close fd) := by
  have hsame : (s.fds.close fd).lookup s.idleFd = s.fds.lookup s.idleFd := by
    rw [Descriptors.lookup_close, if_neg hne]
  exact h.kept rfl hsame h.own

/-- `/dev/null` is opened, or there is no descriptor in reserve. -/
theorem Account.devNull (h : Account s pending) (hc : s.call o = some t) :
    Account { t with idleFd := result o } pending ∧ Idle { t with idleFd := result o } := by
  have hacc := h.call hc
  refine ⟨{ hacc with }, ?_⟩
  cases o with
  | error errno =>
      cases hc
      have hneg : ¬ (0 : Int) ≤ -1 := by decide
      exact ⟨fun hpos => absurd hpos hneg, fun k hk => nomatch hk⟩
  | ok n =>
      obtain ⟨fds, hfds, ht⟩ := Option.map_eq_some_iff.mp hc
      cases ht
      have hlookup : fds.lookup n = some s.fds.handedOut := Descriptors.lookup_handOut_self hfds
      refine ⟨fun _ => ⟨_, hlookup⟩, fun k hk => ?_⟩
      have hk' : fds.lookup n = some k := hk
      rw [hlookup, Option.some.injEq] at hk'
      subst hk'
      exact ⟨not_mem_of_bound h.others_lt, not_mem_of_bound h.accepted_lt⟩

/-! ## handleRead -/

/-- Whatever the calls return, the branch without descriptors leaves no file of its own. -/
theorem Account.useIdle (h : Account s pending) (hidle : Idle s) {os : Outcomes}
    (hc : s.useIdle os = some t) : Account t pending ∧ Idle t := by
  simp only [State.useIdle, Option.bind_eq_bind, Option.pure_def] at hc
  obtain ⟨u, hu, hc⟩ := Option.bind_eq_some_iff.mp hc
  obtain ⟨v, hv, hc⟩ := Option.bind_eq_some_iff.mp hc
  cases hc
  have hclosed : Account (s.close s.idleFd) pending :=
    h.close_own fun k hk => (hidle.own k hk).2
  have hsecond : Account (State.close { u with idleFd := result os.accept }
      (result os.accept)) pending := by
    cases hacc : os.accept with
    | error errno =>
        rw [hacc] at hu
        have hu' : Account { u with idleFd := result (.error errno) } pending :=
          { hclosed.accept_error hu with }
        exact hu'.close_own fun k hk => nomatch hk
    | ok n =>
        rw [hacc] at hu
        obtain ⟨haccount, hlookup⟩ := hclosed.accept_ok hu
        have hu' : Account { u with idleFd := result (.ok n) } (_ :: pending) :=
          { haccount with }
        exact hu'.close_pending hlookup
  exact hsecond.devNull hv

/-- Anything but descriptor 0 is dealt with. -/
theorem Account.accepts (h : Account s pending) (hidle : Idle s) {os : Outcomes}
    (hpending : match os.accept4 with
      | .ok n => 0 < n ∧ ∃ k, pending = [k] ∧ s.fds.lookup n = some k
      | .error _ => pending = [])
    (hc : s.accepts os = some t) : Account t [] ∧ Idle t := by
  rw [State.accepts] at hc
  cases hos : os.accept4 with
  | error errno =>
      rw [hos] at hc hpending
      simp only at hpending
      subst hpending
      have hneg : ¬ (-1 : Int) > 0 := by decide
      rw [if_neg (show ¬ result (.error errno) > 0 from hneg)] at hc
      split at hc
      · exact h.useIdle hidle hc
      · cases hc
        exact ⟨h, hidle⟩
  | ok n =>
      rw [hos] at hc hpending
      obtain ⟨hpos, k, rfl, hfd⟩ := hpending
      have hpos' : result (.ok n) > 0 := Int.natCast_pos.mpr hpos
      rw [if_pos hpos'] at hc
      split at hc
      · cases hc
        exact ⟨h.newConnection hfd, { hidle with }⟩
      · cases hc
        refine ⟨h.close_pending hfd, hidle.close_other ?_⟩
        intro heq
        have hk : s.fds.lookup s.idleFd = some k := by
          rw [heq]
          exact hfd
        exact (hidle.own k hk).2 (h.pending_accepted k List.mem_cons_self)

/-- A call after which the account is balanced again, or the file at descriptor 0 is left. -/
theorem handleRead_account (h : Account s []) (hidle : Idle s) {os : Outcomes}
    (hc : s.handleRead os = some (.ok t)) :
    (os.accept4 ≠ .ok 0 → Account t [] ∧ Idle t) ∧
      (os.accept4 = .ok 0 → Account t [s.fds.handedOut]) := by
  have h' : Account { s with errno := os.errno } [] := { h with }
  have hidle' : Idle { s with errno := os.errno } := { hidle with }
  rw [State.handleRead] at hc
  cases hos : os.accept4 with
  | error errno =>
      rw [hos, State.socketAccept] at hc
      refine ⟨fun _ => ?_, fun heq => nomatch heq⟩
      by_cases hexpected : errno ∈ expectedErrors
      · have hacc : State.accept { s with errno := os.errno } (.error errno)
            = some { s with errno := errno } := rfl
        rw [if_pos hexpected, hacc] at hc
        obtain ⟨u, hu, ht⟩ := Option.map_eq_some_iff.mp hc
        cases ht
        exact (h'.accept_error hacc).accepts (hidle'.accept h'.wf hacc) (by rw [hos]) hu
      · rw [if_neg hexpected] at hc
        cases hc
  | ok n =>
      rw [hos, State.socketAccept] at hc
      cases hacc : State.accept { s with errno := os.errno } (.ok n) with
      | none =>
          rw [hacc] at hc
          cases hc
      | some u =>
          rw [hacc] at hc
          obtain ⟨v, hv, ht⟩ := Option.map_eq_some_iff.mp hc
          cases ht
          obtain ⟨haccount, hlookup⟩ := h'.accept_ok hacc
          have hidleU := hidle'.accept h'.wf hacc
          constructor
          · intro hne
            have hpos : 0 < n := Nat.pos_of_ne_zero fun heq => hne (by rw [heq])
            refine haccount.accepts hidleU ?_ hv
            rw [hos]
            exact ⟨hpos, _, rfl, hlookup⟩
          · intro hzero
            rw [State.accepts, hos, hzero, if_neg (show ¬ result (.ok 0) > 0 by decide)] at hv
            split at hv
            · exact (haccount.useIdle hidleU hv).1
            · cases hv
              exact haccount

/-! ## Runs without descriptor 0 -/

theorem Account.noLeak (h : Account s []) (hidle : Idle s) : NoLeak s where
  once := fun k hk => (h.once k hk).trans (if_neg List.not_mem_nil)
  passed_open := h.passed_open
  idle_open := hidle.idle_open

theorem Account.leak (h : Account s [k]) : ¬ NoLeak s := by
  intro hno
  have hk := h.pending_accepted k List.mem_cons_self
  have hone := hno.once k hk
  rw [h.once k hk, if_pos List.mem_cons_self] at hone
  cases hone

theorem account_start (h : Start s) : Account s [] ∧ Idle s := by
  constructor
  · constructor
    · exact h.wf
    · intro k hk
      rw [h.accepted] at hk
      cases hk
    · exact fun k hk => nomatch hk
    · exact List.nodup_nil
    · rw [h.accepted]
      exact fun k hk => nomatch hk
    · rw [h.passed]
      exact List.not_mem_nil
    · rw [h.passed]
      exact fun k hk => nomatch hk
    · rw [h.closed]
      exact fun k hk => nomatch hk
    · exact h.others
  · obtain ⟨k, hk, hown⟩ := h.idle
    refine ⟨fun _ => ⟨k, hk⟩, fun j hj => ?_⟩
    rw [hk, Option.some.injEq] at hj
    subst hj
    rw [h.accepted]
    exact ⟨hown, List.not_mem_nil⟩

theorem Account.openOther (h : Account s []) (hidle : Idle s) {n : Nat} {fds : Descriptors}
    (hfds : s.fds.handOut n = some fds) :
    Account { s with fds := fds, others := s.others ++ [s.fds.handedOut] } [] ∧
      Idle { s with fds := fds, others := s.others ++ [s.fds.handedOut] } := by
  have hacc : Account { s with fds := fds } [] := by
    refine h.call (o := .ok n) ?_
    rw [State.call, hfds]
    rfl
  constructor
  · refine { hacc with others_lt := ?_ }
    rw [Descriptors.handedOut_handOut hfds]
    exact bound_append h.others_lt
  · refine hidle.kept rfl (hidle.handOut hfds) fun k hk => ?_
    obtain ⟨hothers, haccepted⟩ := hidle.own k hk
    exact ⟨not_mem_append hothers (h.wf _ k hk), haccepted⟩

theorem Account.closeOther (h : Account s []) (hidle : Idle s) {n : Nat} (hn : s.Others n) :
    Account { s with fds := s.fds.close n } [] ∧ Idle { s with fds := s.fds.close n } := by
  obtain ⟨k, hk, hother⟩ := hn
  have hne : s.idleFd ≠ n := by
    intro heq
    rw [← heq] at hk
    obtain ⟨hothers, haccepted⟩ := hidle.own k hk
    rcases hother with hin | hin
    · exact hothers hin
    · exact haccepted (h.passed_accepted k hin)
  refine ⟨{ h with wf := h.wf.close n }, ?_⟩
  have hclosed := hidle.close_other hne
  exact ⟨hclosed.idle_open, hclosed.own⟩

theorem account_next {a : Action} (h : Account s [] ∧ Idle s) (hn : runs.Next s a t) :
    (NotZero s a → Account t [] ∧ Idle t) ∧ (¬ NotZero s a → ¬ NoLeak t) := by
  obtain ⟨hacc, hidle⟩ := h
  have hs : step s a = some (.ok t) := hn
  -- The other steps meet the condition.
  have hother (h : ∀ os, a ≠ .handleRead os) : ¬ NotZero s a → ¬ NoLeak t :=
    fun hz => absurd (fun os heq => absurd heq (h os)) hz
  cases a with
  | setNewConnectionCallback =>
      cases hs
      exact ⟨fun _ => ⟨{ hacc with }, { hidle with }⟩, hother (by simp)⟩
  | handleRead os =>
      obtain ⟨hgood, hbad⟩ := handleRead_account hacc hidle hs
      refine ⟨fun hz => hgood (hz os rfl), fun hz => ?_⟩
      have hzero : os.accept4 = .ok 0 := by
        by_contra hne
        apply hz
        intro os' heq
        cases heq
        exact hne
      exact (hbad hzero).leak
  | openOther n =>
      obtain ⟨fds, hfds, ht⟩ := Option.map_eq_some_iff.mp hs
      cases ht
      exact ⟨fun _ => hacc.openOther hidle hfds, hother (by simp)⟩
  | closeOther n =>
      obtain ⟨hothers, ht⟩ := of_guard hs
      cases ht
      exact ⟨fun _ => hacc.closeOther hidle hothers, hother (by simp)⟩

theorem reachable_account (h : runs.Reachable NotZero s) : Account s [] ∧ Idle s :=
  h.invariant (I := fun s => Account s [] ∧ Idle s) (fun _ hs => account_start hs)
    fun _ _ _ hs hz hn => (account_next hs hn).1 hz

/-- In every run in which no first `accept` of `handleRead` returns descriptor 0, each file that
was accepted is passed on once or closed once, and what is passed on or kept in reserve is open.
A step from such a run to a state where this does not hold is one in which it returns 0. -/
theorem acceptor_leaks_iff (s : State) (h : runs.Reachable NotZero s) :
    NoLeak s ∧ ∀ a t, runs.Next s a t → (NoLeak t ↔ NotZero s a) := by
  have hs := reachable_account h
  refine ⟨hs.1.noLeak hs.2, fun a t hn => ?_⟩
  obtain ⟨hgood, hbad⟩ := account_next hs hn
  constructor
  · intro hno
    by_contra hz
    exact hbad hz hno
  · intro hz
    exact (hgood hz).1.noLeak (hgood hz).2

/-- A process with descriptors 1 to 3 in use, of which 3 is the one in reserve. -/
def sampleStart : State where
  fds := { file := fun fd => if fd = 1 ∨ fd = 2 ∨ fd = 3 then some (fd - 1) else none,
           handedOut := 3 }
  errno := 0
  newConnectionCallback := false
  idleFd := 3
  accepted := []
  passed := []
  closed := []
  others := [0, 1]

theorem sampleStart_start : Start sampleStart := by
  refine ⟨?_, ⟨2, rfl, by decide⟩, rfl, rfl, rfl, by decide⟩
  intro fd k hk
  simp only [Descriptors.lookup, sampleStart] at hk ⊢
  split at hk
  · split at hk
    · rw [Option.some.injEq] at hk
      omega
    · cases hk
  · cases hk

/-- Accepted by the callback, turned away for want of descriptors, and the reserve opened again
at the same number. -/
def sampleRun : List Action :=
  [.setNewConnectionCallback, .handleRead ⟨0, .ok 4, .error 0, .error 0⟩,
    .handleRead ⟨0, .error EMFILE, .ok 3, .ok 3⟩]

theorem acceptor_leaks_sample : ∃ s, runs.Reachable NotZero s ∧ NoLeak s ∧
    s.passed = [some 3] ∧ s.closed = [2, 4] := by
  have hrun := (System.run_of_exec (rfl : runs.exec sampleStart sampleRun
    = some (.ok _))).of_actions (Q := NotZero)
    (by simp [sampleRun, NotZero])
  have hreach : runs.Reachable NotZero _ := ⟨sampleStart, _, sampleStart_start, hrun⟩
  exact ⟨_, hreach, (acceptor_leaks_iff _ hreach).1, rfl, rfl⟩

/-- Descriptor 0 was closed, and the kernel hands it out. -/
theorem descriptor_zero_leaks : ¬ ∀ s, runs.Reachable System.always s → NoLeak s := by
  intro hall
  have hrun := System.run_of_exec (rfl : runs.exec sampleStart
    [.handleRead ⟨0, .ok 0, .error 0, .error 0⟩] = some (.ok _))
  have hno := hall _ ⟨sampleStart, _, sampleStart_start, hrun⟩
  have hone := hno.once 3 List.mem_cons_self
  cases hone

end Acceptor

end Zing.Net
