import Mathlib.Data.List.AList
import Zing.Lib.System
import Zing.Net.InetAddress

set_option autoImplicit false

/-! # The table of connections

`TcpServer::newConnection` names a connection after the server's address and a counter, and
`connections_` finds it under that name until `removeConnectionInLoop`. The counter is an `int`,
which wraps: `table_exact` says that the table is exact as long as no connection is still there
when its number comes round again, after `2 ^ 32` accepts.
-/

namespace Zing.Net

open Zing.Lib

/-! ## The server -/

/-- A connection of the server: its place in the order of all accepts, which stands for the
object, and its name. -/
structure Conn where
  ordinal : Nat
  name : List Char
  deriving DecidableEq

abbrev ConnectionMap := AList (fun _ : List Char => Conn)

/-- `class TcpServer`, as far as the table needs it. -/
structure TcpServer where
  ipPort : List Char
  name : List Char
  nextConnId : BitVec 32
  connections : ConnectionMap

namespace TcpServer

/-- The text that `newConnection` prints into its buffer. -/
def connText (s : TcpServer) : List Char :=
  '-' :: s.ipPort ++ '#' :: fmtInt s.nextConnId.toInt

/-- `connName`, with `buf` of 64 characters -/
def connName (s : TcpServer) : List Char := s.name ++ snprintf 64 s.connText

/-- `newConnection` -/
def newConnection (s : TcpServer) (ordinal : Nat) : TcpServer × Conn :=
  let conn := ⟨ordinal, s.connName⟩
  ({ s with
      nextConnId := s.nextConnId + 1
      -- `connections_[connName] = conn`, which replaces an entry of that name
      connections := s.connections.insert s.connName conn }, conn)

inductive Assertion
  /-- `assert(n == 1)` in `removeConnectionInLoop`. -/
  | erase
  deriving DecidableEq, Repr

def removeConnectionInLoop (s : TcpServer) (conn : Conn) : Except Assertion TcpServer := do
  let n := if conn.name ∈ s.connections then 1 else 0
  let s := { s with connections := s.connections.erase conn.name }
  check (n = 1) .erase
  .ok s

/-! ## Runs -/

/-- The server, the number of accepts, and the connections accepted and not yet removed. -/
structure World where
  server : TcpServer
  accepted : Nat
  live : List Conn

def World.accept (w : World) : World :=
  let r := w.server.newConnection w.accepted
  { server := r.1, accepted := w.accepted + 1, live := w.live ++ [r.2] }

/-- Each connection is removed once at most. -/
inductive Action
  | accept
  | remove (conn : Conn)

def step (w : World) : Action → Option (Except Assertion World)
  | .accept => some (.ok w.accept)
  | .remove conn =>
      if conn ∈ w.live then
        some (do
          let server ← w.server.removeConnectionInLoop conn
          .ok { w with server := server, live := w.live.filter (· ≠ conn) })
      else none

/-- A server that listens at an address. -/
structure Start (w : World) : Prop where
  ipPort : ∃ addr, InetAddress.toIpPort addr = .ok w.server.ipPort
  nextConnId : w.server.nextConnId = 1
  connections : w.server.connections = ∅
  accepted : w.accepted = 0
  live : w.live = []

/-- The accepts and removals of one server. -/
def runs : System World Action Assertion where
  init := Start
  step := step

/-! ## What is promised, and when -/

/-- The table holds the connections accepted and not yet removed, and nothing else, and each of
them can be removed. -/
structure World.Exact (w : World) : Prop where
  table : ∀ name conn,
    w.server.connections.lookup name = some conn ↔ conn ∈ w.live ∧ conn.name = name
  removes : ∀ conn ∈ w.live, ∀ e, ¬ runs.Fails w (.remove conn) e

/-- No connection is still there when a multiple of `2 ^ 32` accepts have gone by since its
own. -/
def Apart (w : World) (a : Action) : Prop :=
  a = .accept → ∀ conn ∈ w.live, ¬ 2 ^ 32 ∣ w.accepted - conn.ordinal

/-! ## The names -/

variable {s : TcpServer}

theorem length_connText (h : s.ipPort.length ≤ 49) : s.connText.length < 64 := by
  -- `-2147483648` is the longest
  have hint : (fmtInt s.nextConnId.toInt).length ≤ 11 := by
    have hlow := BitVec.le_toInt s.nextConnId
    have hhigh := BitVec.toInt_lt (x := s.nextConnId)
    exact length_fmtInt hlow hhigh
  simp only [connText, List.length_append, List.length_cons]
  omega

/-- The name has all of the text. -/
theorem connName_eq (h : s.ipPort.length ≤ 49) : s.connName = s.name ++ s.connText := by
  rw [connName, snprintf_of_lt (length_connText h)]

theorem connName_injective (h : s.ipPort.length ≤ 49) {i j : BitVec 32}
    (heq : connName { s with nextConnId := i } = connName { s with nextConnId := j }) :
    i = j := by
  rw [connName_eq (s := { s with nextConnId := i }) h,
    connName_eq (s := { s with nextConnId := j }) h] at heq
  -- the two names differ in the counter only
  have htext := List.append_cancel_left heq
  have hdigits := List.append_cancel_left (List.cons.inj htext).2
  exact BitVec.eq_of_toInt_eq (fmtInt_injective (List.cons.inj hdigits).2)

/-- The name under the value of the counter for the accept `n`. -/
def nameOf (s : TcpServer) (n : Nat) : List Char :=
  connName { s with nextConnId := BitVec.ofNat 32 (1 + n) }

/-- The names of two accepts are the same when the counter has come round between them. -/
theorem nameOf_eq_iff (h : s.ipPort.length ≤ 49) {m n : Nat} (hle : m ≤ n) :
    s.nameOf m = s.nameOf n ↔ 2 ^ 32 ∣ n - m := by
  have hcounter : BitVec.ofNat 32 (1 + m) = BitVec.ofNat 32 (1 + n) ↔ 2 ^ 32 ∣ n - m := by
    constructor
    · intro heq
      have hmod : (1 + m) % 2 ^ 32 = (1 + n) % 2 ^ 32 := by
        simpa only [BitVec.toNat_ofNat] using congrArg BitVec.toNat heq
      omega
    · intro hdvd
      apply BitVec.eq_of_toNat_eq
      rw [BitVec.toNat_ofNat, BitVec.toNat_ofNat]
      omega
  rw [← hcounter]
  constructor
  · exact connName_injective h
  · intro heq
    rw [nameOf, nameOf, heq]

/-! ## The invariant -/

/-- The counter has counted the connections that were accepted, each live one has the name of its
number, and the table has exactly the live ones under their names. The address is short enough for
the buffer of the name. -/
structure Inv (w : World) : Prop where
  ipPort : w.server.ipPort.length ≤ 49
  counter : w.server.nextConnId = BitVec.ofNat 32 (1 + w.accepted)
  ordinals : ∀ conn ∈ w.live, conn.ordinal < w.accepted
  names : ∀ conn ∈ w.live, conn.name = w.server.nameOf conn.ordinal
  table : ∀ name conn,
    w.server.connections.lookup name = some conn ↔ conn ∈ w.live ∧ conn.name = name

variable {w u : World} {a : Action}

theorem start_inv (h : Start w) : Inv w := by
  obtain ⟨addr, haddr⟩ := h.ipPort
  obtain ⟨text, htext, hlen⟩ := toIpPort_spec addr
  rw [haddr] at htext
  cases htext
  refine ⟨hlen, ?_, ?_, ?_, ?_⟩
  · rw [h.nextConnId, h.accepted]
    rfl
  · intro conn hmem
    rw [h.live] at hmem
    cases hmem
  · intro conn hmem
    rw [h.live] at hmem
    cases hmem
  · intro name conn
    rw [h.connections, h.live, AList.lookup_empty]
    simp

/-- The name that comes next is the one of the next accept. -/
theorem Inv.connName (h : Inv w) : w.server.connName = w.server.nameOf w.accepted := by
  rw [nameOf, ← h.counter]

/-- The next name is fresh exactly if the connections are apart. -/
theorem Inv.fresh_iff (h : Inv w) :
    w.server.connName ∉ w.server.connections ↔ Apart w .accept := by
  have hmem : w.server.connName ∈ w.server.connections ↔
      ∃ conn ∈ w.live, 2 ^ 32 ∣ w.accepted - conn.ordinal := by
    rw [← AList.lookup_isSome, Option.isSome_iff_exists]
    constructor
    · rintro ⟨conn, hlookup⟩
      obtain ⟨hlive, hname⟩ := (h.table _ conn).mp hlookup
      refine ⟨conn, hlive, ?_⟩
      rw [h.names conn hlive, h.connName] at hname
      exact (nameOf_eq_iff h.ipPort (Nat.le_of_lt (h.ordinals conn hlive))).mp hname
    · rintro ⟨conn, hlive, hdvd⟩
      refine ⟨conn, (h.table _ conn).mpr ⟨hlive, ?_⟩⟩
      rw [h.names conn hlive, h.connName]
      exact (nameOf_eq_iff h.ipPort (Nat.le_of_lt (h.ordinals conn hlive))).mpr hdvd
  rw [hmem]
  constructor
  · intro hnot _ conn hlive hdvd
    exact hnot ⟨conn, hlive, hdvd⟩
  · rintro hapart ⟨conn, hlive, hdvd⟩
    exact hapart rfl conn hlive hdvd

theorem Inv.accept (h : Inv w) (hfresh : w.server.connName ∉ w.server.connections) :
    Inv w.accept where
  ipPort := h.ipPort
  counter := by
    show w.server.nextConnId + 1 = BitVec.ofNat 32 (1 + (w.accepted + 1))
    rw [h.counter, ← Nat.add_assoc, BitVec.ofNat_add (1 + w.accepted) 1]
    rfl
  ordinals := by
    intro conn hmem
    rcases List.mem_append.mp hmem with hmem | hmem
    · exact Nat.lt_succ_of_lt (h.ordinals conn hmem)
    · rw [List.mem_singleton.mp hmem]
      exact Nat.lt_succ_self _
  names := by
    intro conn hmem
    rcases List.mem_append.mp hmem with hmem | hmem
    · exact h.names conn hmem
    · rw [List.mem_singleton.mp hmem]
      exact h.connName
  table := by
    intro name conn
    show (w.server.connections.insert _ _).lookup name = _ ↔
      conn ∈ w.live ++ [⟨w.accepted, w.server.connName⟩] ∧ _
    -- the new entry hides none, since its name is fresh
    by_cases hname : name = w.server.connName
    · subst hname
      rw [AList.lookup_insert]
      constructor
      · intro heq
        cases heq
        exact ⟨List.mem_append_right _ (List.mem_singleton_self _), rfl⟩
      · rintro ⟨hmem, heq⟩
        rcases List.mem_append.mp hmem with hmem | hmem
        · -- a connection of that name would be in the table
          have hlookup := (h.table _ conn).mpr ⟨hmem, heq⟩
          exact absurd (AList.lookup_isSome.mp (by rw [hlookup]; rfl)) hfresh
        · rw [List.mem_singleton.mp hmem]
    · rw [AList.lookup_insert_ne hname, h.table, List.mem_append, List.mem_singleton]
      constructor
      · rintro ⟨hmem, heq⟩
        exact ⟨Or.inl hmem, heq⟩
      · rintro ⟨hmem | rfl, heq⟩
        · exact ⟨hmem, heq⟩
        · exact absurd heq.symm hname

/-- A connection of the table is found by its name, and the others stay. -/
theorem Inv.remove (h : Inv w) {conn : Conn} (hlive : conn ∈ w.live) :
    ∃ server, w.server.removeConnectionInLoop conn = .ok server ∧
      Inv { w with server := server, live := w.live.filter (· ≠ conn) } := by
  have hlookup := (h.table conn.name conn).mpr ⟨hlive, rfl⟩
  have hmem : conn.name ∈ w.server.connections :=
    AList.lookup_isSome.mp (by rw [hlookup]; rfl)
  refine ⟨{ w.server with connections := w.server.connections.erase conn.name }, ?_, ?_⟩
  · unfold removeConnectionInLoop
    rw [if_pos hmem]
    rfl
  refine ⟨h.ipPort, h.counter, ?_, ?_, ?_⟩
  · intro c hc
    exact h.ordinals c (List.mem_of_mem_filter hc)
  · intro c hc
    exact h.names c (List.mem_of_mem_filter hc)
  · intro name c
    show (w.server.connections.erase conn.name).lookup name = _ ↔ _
    by_cases hname : name = conn.name
    · subst hname
      rw [AList.lookup_erase]
      constructor
      · rintro ⟨⟩
      · rintro ⟨hc, heq⟩
        -- the name has one connection only
        obtain ⟨hc, hne⟩ := List.mem_filter.mp hc
        have hsame := (h.table conn.name c).mpr ⟨hc, heq⟩
        rw [hlookup, Option.some.injEq] at hsame
        exact absurd hsame.symm (of_decide_eq_true hne)
    · rw [AList.lookup_erase_ne hname, h.table, List.mem_filter]
      constructor
      · rintro ⟨hc, heq⟩
        refine ⟨⟨hc, decide_eq_true ?_⟩, heq⟩
        rintro rfl
        exact hname heq.symm
      · rintro ⟨⟨hc, -⟩, heq⟩
        exact ⟨hc, heq⟩

/-- A step that keeps the connections apart keeps the invariant. -/
theorem Inv.next (h : Inv w) (hapart : Apart w a) (hn : runs.Next w a u) : Inv u := by
  have hs : step w a = some (.ok u) := hn
  cases a with
  | accept =>
      cases hs
      exact h.accept (h.fresh_iff.mpr hapart)
  | remove conn =>
      simp only [step] at hs
      split at hs
      case isTrue hlive =>
        obtain ⟨server, hok, hinv⟩ := h.remove hlive
        rw [hok] at hs
        cases hs
        exact hinv
      case isFalse => cases hs

theorem Inv.exact (h : Inv w) : w.Exact where
  table := h.table
  removes := by
    intro conn hlive e hf
    have hs : step w (.remove conn) = some (.error e) := hf
    obtain ⟨server, hok, -⟩ := h.remove hlive
    simp only [step, if_pos hlive, hok] at hs
    cases hs

/-- The accept that brings a number round again overwrites the connection that has it. -/
theorem Inv.overwrites (h : Inv w) (hn : runs.Next w .accept u) (hu : u.Exact) :
    Apart w .accept := by
  cases hn
  apply h.fresh_iff.mp
  intro hmem
  obtain ⟨conn, hlookup⟩ := Option.isSome_iff_exists.mp (AList.lookup_isSome.mpr hmem)
  obtain ⟨hlive, hname⟩ := (h.table _ conn).mp hlookup
  -- the table would have to hold both under the one name
  have hnew := (hu.table w.server.connName conn).mpr ⟨List.mem_append_left _ hlive, hname⟩
  have hinsert : (w.server.connections.insert w.server.connName
      ⟨w.accepted, w.server.connName⟩).lookup w.server.connName = some conn := hnew
  rw [AList.lookup_insert] at hinsert
  cases hinsert
  exact Nat.lt_irrefl _ (h.ordinals _ hlive)

theorem reachable_inv (h : runs.Reachable Apart w) : Inv w :=
  h.invariant (fun _ h₀ => start_inv h₀) fun _ _ _ hi ha hn => hi.next ha hn

/-- For every address and every run of accepts and removals in which the connections are
apart: the buffer has all of the name; the table is exact; the next name is fresh exactly if the
next accept keeps the connections apart; and so is the table behind a step. -/
theorem table_exact (w : World) (h : runs.Reachable Apart w) :
    w.server.connName = w.server.name ++ w.server.connText ∧ w.Exact ∧
      (w.server.connName ∉ w.server.connections ↔ Apart w .accept) ∧
      ∀ a u, runs.Next w a u → (u.Exact ↔ Apart w a) := by
  have hinv := reachable_inv h
  refine ⟨connName_eq hinv.ipPort, hinv.exact, hinv.fresh_iff, ?_⟩
  intro a u hn
  constructor
  · rintro hu rfl
    exact hinv.overwrites hn hu rfl
  · intro ha
    exact (hinv.next ha hn).exact

/-! ## Runs on a concrete server -/

/-- A server at `0.0.0.0:2007`. -/
def listening : World where
  server :=
    { ipPort := ['0', '.', '0', '.', '0', '.', '0', ':', '2', '0', '0', '7']
      name := []
      nextConnId := 1
      connections := ∅ }
  accepted := 0
  live := []

theorem listening_start : Start listening where
  ipPort := ⟨.inet ⟨0, 0, 0, 0⟩ 2007, by decide⟩
  nextConnId := rfl
  connections := rfl
  accepted := rfl
  live := rfl

theorem Inv.next_remove (h : Inv w) {conn : Conn} (hlive : conn ∈ w.live) : ∃ server,
    runs.Next w (.remove conn) { w with server := server, live := w.live.filter (· ≠ conn) } := by
  obtain ⟨server, hok, -⟩ := h.remove hlive
  refine ⟨server, ?_⟩
  show step w (.remove conn) = _
  simp only [step, if_pos hlive, hok]
  rfl

/-- While the first connection stays, others come and go. -/
theorem first_stays (n : Nat) (hn : n < 2 ^ 32) : ∃ w : World, runs.Reachable Apart w ∧
    w.accepted = n + 1 ∧ ∃ conn, conn.ordinal = 0 ∧ w.live = [conn] := by
  induction n with
  | zero =>
      have hfirst : runs.Run Apart listening [.accept] listening.accept := by
        refine System.Run.single ?_ rfl
        intro _ conn hmem
        cases hmem
      exact ⟨_, (System.Reachable.of_init listening_start).run hfirst, rfl, _, rfl, rfl⟩
  | succ n ih =>
      obtain ⟨w, hreach, haccepted, conn, hordinal, hlive⟩ := ih (Nat.lt_of_succ_lt hn)
      have haccept : Apart w .accept := by
        intro _ c hc
        rw [hlive, List.mem_singleton] at hc
        subst hc
        rw [haccepted, hordinal]
        omega
      have hnext : runs.Next w .accept w.accept := rfl
      have hv := hreach.run (System.Run.single haccept hnext)
      -- the new connection goes, and its name with it
      have hmem : (⟨w.accepted, w.server.connName⟩ : Conn) ∈ w.accept.live :=
        List.mem_append_right _ (List.mem_singleton_self _)
      obtain ⟨server, hremove⟩ := (reachable_inv hv).next_remove hmem
      have hleft : w.accept.live.filter (· ≠ ⟨w.accepted, w.server.connName⟩) = [conn] := by
        have hne : conn ≠ ⟨w.accepted, w.server.connName⟩ := by
          rintro rfl
          rw [haccepted] at hordinal
          cases hordinal
        show (w.live ++ [(⟨w.accepted, w.server.connName⟩ : Conn)]).filter _ = _
        rw [hlive]
        simp [hne]
      refine ⟨_, hv.run (System.Run.single (by rintro ⟨⟩) hremove), ?_, conn, hordinal, hleft⟩
      show w.accepted + 1 = _
      rw [haccepted]

/-- One connection stays, and another one has come and gone. -/
theorem table_exact_sample : ∃ w : World, w.accepted = 2 ∧ w.live.length = 1 ∧ w.Exact := by
  obtain ⟨w, hreach, haccepted, conn, -, hlive⟩ := first_stays 1 (by decide)
  refine ⟨w, haccepted, ?_, (table_exact w hreach).2.1⟩
  rw [hlive]
  rfl

/-- The accept number `2 ^ 32` overwrites the entry of the first connection; when that one is
removed, the new one is no longer found. -/
theorem overwritten : (¬ ∀ w : World, runs.Reachable System.always w → w.Exact) ∧
    ∃ w : World, runs.Reachable System.always w ∧
      ∃ conn ∈ w.live, runs.Fails w (.remove conn) .erase := by
  obtain ⟨w, hapart, haccepted, conn, hordinal, hlive⟩ := first_stays (2 ^ 32 - 1) (by decide)
  have hinv := reachable_inv hapart
  have hreach : runs.Reachable System.always w := hapart.weaken fun _ _ _ => trivial
  have hmem : conn ∈ w.live := by
    rw [hlive]
    exact List.mem_singleton_self conn
  have hnext : runs.Next w .accept w.accept := rfl
  have hv : runs.Reachable System.always w.accept :=
    hreach.run (System.Run.single trivial hnext)
  -- the counter has come round
  have hround : 2 ^ 32 ∣ w.accepted - conn.ordinal := by
    rw [haccepted, hordinal]
    exact Nat.dvd_refl _
  have hname : conn.name = w.server.connName := by
    rw [hinv.names conn hmem, hinv.connName]
    exact (nameOf_eq_iff hinv.ipPort (Nat.le_of_lt (hinv.ordinals conn hmem))).mpr hround
  constructor
  · intro hall
    exact hinv.overwrites hnext (hall w.accept hv) rfl conn hmem hround
  · -- the removal of the first connection takes the entry of the new one
    have hfound : conn.name ∈ w.accept.server.connections := by
      rw [hname]
      exact (AList.mem_insert _).mpr (Or.inl rfl)
    have hlast : conn ∈ w.accept.live := List.mem_append_left _ hmem
    have hremove : runs.Next w.accept (.remove conn)
        { w.accept with
          server := { w.accept.server with
            connections := w.accept.server.connections.erase conn.name }
          live := w.accept.live.filter (· ≠ conn) } := by
      show step w.accept (.remove conn) = _
      simp only [step, if_pos hlast, removeConnectionInLoop, if_pos hfound]
      rfl
    have hnew : (⟨w.accepted, w.server.connName⟩ : Conn) ∈
        w.accept.live.filter (· ≠ conn) := by
      refine List.mem_filter.mpr ⟨List.mem_append_right _ (List.mem_singleton_self _), ?_⟩
      apply decide_eq_true
      rintro rfl
      rw [haccepted] at hordinal
      cases hordinal
    refine ⟨_, hv.run (System.Run.single trivial hremove), _, hnew, ?_⟩
    have hgone : w.server.connName ∉ w.accept.server.connections.erase conn.name := by
      rw [hname, AList.mem_erase]
      exact fun hmem => hmem.1 rfl
    simp only [System.Fails, runs, step, if_pos hnew, removeConnectionInLoop, if_neg hgone]
    rfl

end TcpServer

end Zing.Net
