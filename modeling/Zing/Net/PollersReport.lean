import Zing.Net.EPollWait
import Zing.Net.PollersAgree

set_option autoImplicit false

/-! # What the two pollers report

The operations of the channels of one loop, and polls between them, once over an `EPollPoller`
and once over a `PollPoller`, with the same descriptors ready at each poll. `reports_iff` says
that the condition under which the pollers watch the same is also exactly the one under which
they report the same: the same active channels, in some order, with the same `revents_`.
-/

namespace Zing.Net

open Zing.Lib
open ChannelOps (Op Loop Constructed)

/-- What `::poll` leaves in `pollfds_`. -/
def PollPoller.answer (p : PollPoller) (ready : Nat → Events) : List PollFd :=
  p.pollfds.map fun pfd => { pfd with
    revents := if pfd.fd < 0 then Events.none
      else EPollPoller.reported pfd.events (ready pfd.fd.toNat) }

namespace PollersReport

open PollersAgree (Agrees Keeps pollCalls slotFd)
open EPollPoller (Known PollAssertion)
open PollPoller (ready Dispatched)

/-- What happens on the loop: an operation, or a poll, at which the descriptors have the events
`ready`, and `epoll_wait` reports on `fds`. -/
inductive Call
  | op (op : Op)
  | poll (ready : Nat → Events) (fds : List Nat)

/-- A poller and the channels of its loop, with the active channels of the last poll. -/
structure Polled (P : Type) where
  loop : Loop P
  size : Nat
  activeChannels : List ChannelPtr

def epollStep (s : Polled EPollPoller) : Call → Except PollAssertion (Polled EPollPoller)
  | .op op => do
      let loop ← nested .poller (s.loop.step EPollPoller.calls op)
      .ok { s with loop := loop }
  | .poll ready fds => do
      let r ← s.loop.poller.poll s.size (fun _ => true)
        (some (s.loop.poller.report ready fds)) s.loop.channels []
      .ok { loop := { s.loop with channels := r.2.1 }, size := r.1, activeChannels := r.2.2 }

def pollStep (s : Polled PollPoller) : Call → Except PollAssertion (Polled PollPoller)
  | .op op => do
      let loop ← nested .poller (s.loop.step pollCalls op)
      .ok { s with loop := loop }
  | .poll revents _ => do
      let pollfds := s.loop.poller.answer revents
      let r ← nested .poller (s.loop.poller.poll pollfds (pollfds.countP ready : Nat)
        s.loop.channels [])
      .ok { s with loop := ⟨r.1, r.2.1⟩, activeChannels := r.2.2 }

/-- A new poller, with the channels `h`. -/
def start {P : Type} (p : P) (h : Channels) : Polled P where
  loop := { poller := p, channels := h }
  size := EPollPoller.kInitEventListSize
  activeChannels := []

def epollRuns (h : Channels) : System (Polled EPollPoller) Call PollAssertion where
  init s := s = start EPollPoller.new h
  step s call := some (epollStep s call)

def pollRuns (h : Channels) : System (Polled PollPoller) Call PollAssertion where
  init s := s = start PollPoller.new h
  step s call := some (pollStep s call)

/-- Operations are on the channels `S`, and an answer of `epoll_wait` has room for everything
that is ready. -/
def Takes (S : Set ChannelPtr) (s : Polled EPollPoller) : Call → Prop
  | .op op => op.channel ∈ S
  | .poll ready fds => s.loop.poller.WaitResult s.size ready fds ∧
      ∀ fd, s.loop.poller.isReady ready fd = true → fd ∈ fds

/-- The two sides look the same: the kernel is asked to watch the same, the active channels are
the same, and so is what was reported about every channel. -/
structure LooksSame (e : Polled EPollPoller) (p : Polled PollPoller) : Prop where
  watched : e.loop.poller.watched = p.loop.poller.watched
  active : e.activeChannels.Perm p.activeChannels
  revents : ∀ a, (p.loop.channels a).revents = (e.loop.channels a).revents

def Call.op? : Call → Option Op
  | .op operation => some operation
  | .poll _ _ => none

/-- The operations before and between the polls. -/
def ops (calls : List Call) : List Op := calls.filterMap Call.op?

/-- The condition of `interchangeable_iff` on the operations. -/
def KeepsOps (pre : List Call) (s : Polled EPollPoller) : Call → Prop
  | .op op => Keeps (ops pre) s.loop op
  | .poll _ _ => True

/-- `PollPoller` follows the calls wherever `EPollPoller` executes them, and reports the same. -/
def SameReports (S : Set ChannelPtr) (h : Channels) (calls : List Call) : Prop :=
  System.Follows (epollRuns h) (pollRuns h) (Takes S) LooksSame (start EPollPoller.new h)
    (start PollPoller.new h) calls

/-- The two sides behind the calls `pre`. -/
structure Related (S : Set ChannelPtr) (pre : List Call) (e : Polled EPollPoller)
    (p : Polled PollPoller) : Prop where
  size : 0 < e.size
  agrees : Agrees S (ops pre) e.loop p.loop
  active : e.activeChannels.Perm p.activeChannels

variable {S : Set ChannelPtr} {pre : List Call} {e e' : Polled EPollPoller}
  {p p' : Polled PollPoller} {h₀ : Channels}

theorem Related.looksSame (h : Related S pre e p) : LooksSame e p where
  watched := h.agrees.watched
  active := h.active
  revents := by
    intro a
    obtain ⟨k, hk⟩ := h.agrees.object a
    rw [hk]

theorem related_start (hc : Constructed S h₀) :
    Related S [] (start EPollPoller.new h₀) (start PollPoller.new h₀) where
  size := Nat.zero_lt_succ 15
  agrees := PollersAgree.agrees_start hc
  active := List.Perm.nil

theorem ops_snoc_op (pre : List Call) (op : Op) : ops (pre ++ [.op op]) = ops pre ++ [op] := by
  rw [ops, List.filterMap_append]
  rfl

theorem ops_snoc_poll (pre : List Call) (ready : Nat → Events) (fds : List Nat) :
    ops (pre ++ [.poll ready fds]) = ops pre := by
  rw [ops, List.filterMap_append]
  exact List.append_nil _

/-! ## A poll -/

section poll

variable {ready : Nat → Events} {fds : List Nat} {q : PollPoller}

/-- `::poll` keeps within what it promises. -/
theorem answer_result (q : PollPoller) (ready : Nat → Events) :
    q.PollResult (q.answer ready) ((q.answer ready).countP PollPoller.ready : Nat) where
  same := by
    rw [PollPoller.answer, List.map_map]
    rfl
  negative := by
    intro pfd hmem hneg
    obtain ⟨old, -, rfl⟩ := List.mem_map.mp hmem
    exact if_pos hneg
  count := rfl

/-- The slot of a channel behind the poll. -/
theorem slot_answer {h : Channels} {a : ChannelPtr} {pfd : PollFd} (ready : Nat → Events)
    (hslot : q.Slot h a pfd) :
    PollPoller.Slot { q with pollfds := q.answer ready } h a { pfd with
      revents := if pfd.fd < 0 then Events.none
        else EPollPoller.reported pfd.events (ready pfd.fd.toNat) } := by
  obtain ⟨i, hi, hpfd⟩ := hslot
  refine ⟨i, hi, ?_⟩
  show (q.answer ready)[i]? = _
  rw [PollPoller.answer, List.getElem?_map, hpfd]
  rfl

/-- The kernel reports about the slot of a channel what it reports about its entry. -/
theorem ready_iff (ready : Nat → Events) (hagrees : Agrees S (ops pre) e.loop p.loop)
    {a : ChannelPtr}
    (hreg : e.loop.poller.channels.lookup (e.loop.channels a).fd = some a) :
    ∃ pfd, PollPoller.Slot { p.loop.poller with pollfds := p.loop.poller.answer ready }
        p.loop.channels a pfd ∧
      (PollPoller.ready pfd = true ↔
        e.loop.poller.isReady ready (e.loop.channels a).fd = true) ∧
      (PollPoller.ready pfd = true → pfd.revents =
        EPollPoller.reported (e.loop.channels a).events (ready (e.loop.channels a).fd)) := by
  obtain ⟨pfd, hslot, hfd, hevents⟩ := hagrees.slot_of_registered hreg
  refine ⟨_, slot_answer _ hslot, ?_, ?_⟩
  all_goals
    rw [PollPoller.ready]
    simp only
  · rcases hagrees.known.wf.index _ a hreg with hadd | hdel
    · have hpos : pfd.fd = (e.loop.channels a).fd := by
        rw [hfd, slotFd, if_neg (by rw [hadd]; decide)]
      have hint := hagrees.known.wf.added _ a hreg hadd
      rw [if_neg (by omega), hpos, Int.toNat_natCast, hevents, EPollPoller.isReady, hint]
    · have hneg : pfd.fd < 0 := by
        rw [hfd, slotFd, if_pos hdel]
        omega
      have hint := hagrees.known.wf.deleted _ a hreg hdel
      rw [if_pos hneg, EPollPoller.isReady, hint]
      exact ⟨fun hn => (by cases hn), fun hn => (by cases hn)⟩
  · intro hready
    by_cases hneg : pfd.fd < 0
    · rw [if_pos hneg] at hready
      cases hready
    · have hpos : pfd.fd = (e.loop.channels a).fd := by
        rw [slotFd] at hfd
        split at hfd
        · omega
        · exact hfd
      rw [if_neg hneg, hpos, Int.toNat_natCast, hevents]

/-- The same channels are reported, with the same events. -/
theorem active_iff (hagrees : Agrees S (ops pre) e.loop p.loop)
    (hres : e.loop.poller.WaitResult e.size ready fds)
    (hall : ∀ fd, e.loop.poller.isReady ready fd = true → fd ∈ fds)
    {he hp : Channels} {active reported : List ChannelPtr}
    (ha : e.loop.poller.Active ready fds e.loop.channels he active)
    (hd : Dispatched { p.loop.poller with pollfds := p.loop.poller.answer ready }
      p.loop.channels hp reported) (a : ChannelPtr) :
    (a ∈ active ↔ a ∈ reported) ∧ ∃ k, hp a = { he a with index := k } := by
  have hlookup : ∀ fd, p.loop.poller.channels.lookup fd = e.loop.poller.channels.lookup fd :=
    hagrees.lookup
  obtain ⟨k, hk⟩ := hagrees.object a
  have hfd : (p.loop.channels a).fd = (e.loop.channels a).fd := hagrees.fd a
  have hmem : a ∈ active ↔
      e.loop.poller.channels.lookup (e.loop.channels a).fd = some a ∧
        e.loop.poller.isReady ready (e.loop.channels a).fd = true := by
    rw [ha.mem]
    constructor
    · rintro ⟨fd, hmem, hreg⟩
      rw [hagrees.known.wf.fd fd a hreg]
      exact ⟨hreg, hres.sound fd hmem⟩
    · rintro ⟨hreg, hready⟩
      exact ⟨_, hall _ hready, hreg⟩
  have hmemP : a ∈ reported ↔
      e.loop.poller.channels.lookup (e.loop.channels a).fd = some a ∧
        ∃ pfd, PollPoller.Slot { p.loop.poller with pollfds := p.loop.poller.answer ready }
          p.loop.channels a pfd ∧ PollPoller.ready pfd = true := by
    rw [hd.mem]
    simp only
    rw [hlookup, hfd]
    constructor
    · rintro ⟨pfd, hreg, hslot, hready⟩
      exact ⟨hreg, pfd, hslot, hready⟩
    · rintro ⟨hreg, pfd, hslot, hready⟩
      exact ⟨pfd, hreg, hslot, hready⟩
  have hiff : a ∈ active ↔ a ∈ reported := by
    rw [hmem, hmemP]
    constructor
    · rintro ⟨hreg, hready⟩
      obtain ⟨pfd, hslot, hboth, -⟩ := ready_iff ready hagrees hreg
      exact ⟨hreg, pfd, hslot, hboth.mpr hready⟩
    · rintro ⟨hreg, x, hx, hready⟩
      obtain ⟨pfd, hslot, hboth, -⟩ := ready_iff ready hagrees hreg
      rw [hx.unique hslot] at hready
      exact ⟨hreg, hboth.mp hready⟩
  refine ⟨hiff, k, ?_⟩
  by_cases hin : a ∈ active
  · obtain ⟨hreg, x, hx, hready⟩ := hmemP.mp (hiff.mp hin)
    obtain ⟨pfd, hslot, -, hrevents⟩ := ready_iff ready hagrees hreg
    rw [hx.unique hslot] at hready
    rw [ha.revents a hin, hd.revents a pfd (hiff.mp hin) hslot, hrevents hready, hk]
  · rw [ha.others a hin, hd.others a (hiff.not.mp hin), hk]

/-- A poll changes nothing that `Known` looks at. -/
theorem known_polled {l : Loop EPollPoller} (hk : Known S l) {h' : Channels}
    (ha : Poller.Agrees l.channels h') : Known S { l with channels := h' } where
  wf := hk.wf.agrees ha
  registered := hk.registered
  new := by
    intro a hS hnone
    have hnone : l.poller.channels.lookup (h' a).fd = none := hnone
    rw [(ha a).1] at hnone
    show (h' a).index = EPollPoller.kNew
    rw [(ha a).2.1]
    exact hk.new a hS hnone
  distinct := EPollPoller.distinct_of_same hk.distinct fun a => (ha a).1
  logged := hk.logged

/-- The relation behind a poll on both sides. -/
theorem agrees_polled (hagrees : Agrees S (ops pre) e.loop p.loop) {he hp : Channels}
    (hae : Poller.Agrees e.loop.channels he) (hap : Poller.Agrees p.loop.channels hp)
    (hobject : ∀ a, ∃ k, hp a = { he a with index := k }) :
    Agrees S (ops pre) { e.loop with channels := he }
      ⟨{ p.loop.poller with pollfds := p.loop.poller.answer ready }, hp⟩ where
  known := known_polled hagrees.known hae
  wf := (hagrees.wf.polled (answer_result _ ready)).agrees hap
  lookup := hagrees.lookup
  object := hobject
  fresh := by
    intro a hS hnot hnone
    show (hp a).index < 0
    rw [(hap a).2.1]
    refine hagrees.fresh a hS hnot ?_
    rw [← (hae a).1]
    exact hnone
  stale := by
    intro a hS hmem
    obtain ⟨hnone, hidx⟩ := hagrees.stale a hS hmem
    refine ⟨?_, ?_⟩
    · show e.loop.poller.channels.lookup (he a).fd = none
      rw [(hae a).1]
      exact hnone
    · show 0 ≤ (hp a).index
      rw [(hap a).2.1]
      exact hidx
  slot := by
    intro fd a ha
    obtain ⟨pfd, ⟨i, hi, hpfd⟩, hfd⟩ := hagrees.slot fd a ha
    have hslot : p.loop.poller.Slot p.loop.channels a pfd := ⟨i, hi, hpfd⟩
    obtain ⟨j, hj, hanswer⟩ := slot_answer ready hslot
    refine ⟨_, ⟨j, ?_, hanswer⟩, ?_⟩
    · show (hp a).index = j
      rw [(hap a).2.1]
      exact hj
    · show pfd.fd = slotFd (he a)
      rw [hfd, slotFd, slotFd, (hae a).1, (hae a).2.1]
  deleted := by
    intro fd a ha hdel
    have hdel : (he a).index = EPollPoller.kDeleted := hdel
    rw [(hae a).2.1] at hdel
    show (he a).isNoneEvent = true
    rw [Channel.isNoneEvent, (hae a).2.2]
    exact hagrees.deleted fd a ha hdel

/-- Behind a poll the two sides are related again. -/
theorem Related.poll (h : Related S pre e p)
    (hp : Takes S e (.poll ready fds))
    (hn : epollStep e (.poll ready fds) = .ok e') :
    ∃ p', pollStep p (.poll ready fds) = .ok p' ∧
      Related S (pre ++ [.poll ready fds]) e' p' := by
  obtain ⟨hres, hall⟩ := hp
  obtain ⟨he, active, hok, ha⟩ :=
    h.agrees.known.wf.poll h.size hres (fun _ => true) fun _ _ _ => rfl
  obtain ⟨hp', reported, hokp, hd⟩ := h.agrees.wf.poll_eq (answer_result p.loop.poller ready)
  have hsame := active_iff h.agrees hres hall ha hd
  rw [epollStep, hok] at hn
  have hn : Except.ok _ = Except.ok e' := hn
  rw [Except.ok.injEq] at hn
  refine ⟨⟨⟨{ p.loop.poller with pollfds := p.loop.poller.answer ready }, hp'⟩, p.size,
    reported⟩, ?_, ?_⟩
  · rw [pollStep]
    simp only
    rw [hokp]
    rfl
  · subst hn
    refine { size := ?_, agrees := ?_, active := ?_ }
    · show 0 < EPollPoller.sizeAfter e.size fds.length
      have hpos := h.size
      unfold EPollPoller.sizeAfter
      split <;> omega
    · rw [ops_snoc_poll]
      exact agrees_polled h.agrees ha.agrees (PollPoller.agrees_reported hd)
        fun a => (hsame a).2
    · exact (List.perm_ext_iff_of_nodup ha.nodup hd.nodup).mpr fun a => (hsame a).1

end poll

/-! ## Runs -/

theorem Related.op (h : Related S pre e p) {op : Op} (hop : op.channel ∈ S)
    (hn : epollStep e (.op op) = .ok e') (hk : Keeps (ops pre) e.loop op) :
    ∃ p', pollStep p (.op op) = .ok p' ∧ Related S (pre ++ [.op op]) e' p' := by
  obtain ⟨l, hl, hn⟩ := bind_eq_ok.mp hn
  rw [nested_eq_ok] at hl
  rw [Except.ok.injEq] at hn
  have hnext : (EPollPoller.runs e.loop.channels).Next e.loop op l := congrArg some hl
  obtain ⟨l', hl', hagrees⟩ := h.agrees.step hop hnext hk
  have hl' : p.loop.step pollCalls op = .ok l' := Option.some.inj hl'
  refine ⟨{ p with loop := l' }, ?_, ?_⟩
  · rw [pollStep, hl']
    rfl
  · subst hn
    refine ⟨h.size, ?_, h.active⟩
    rw [ops_snoc_op]
    exact hagrees

/-- An operation that makes the two sides look different breaks the condition. -/
theorem Related.keeps (h : Related S pre e p) {op : Op} (hop : op.channel ∈ S)
    (hn : epollStep e (.op op) = .ok e') (hnp : pollStep p (.op op) = .ok p')
    (hsame : LooksSame e' p') : Keeps (ops pre) e.loop op := by
  obtain ⟨l, hl, hn⟩ := bind_eq_ok.mp hn
  obtain ⟨l', hl', hnp⟩ := bind_eq_ok.mp hnp
  rw [nested_eq_ok] at hl hl'
  rw [Except.ok.injEq] at hn hnp
  have hwatched := hsame.watched
  subst hn
  subst hnp
  have hnext : (EPollPoller.runs e.loop.channels).Next e.loop op l := congrArg some hl
  have hnext' : (PollersAgree.pollRuns e.loop.channels).Next p.loop op l' := congrArg some hl'
  exact h.agrees.keeps hop hnext hnext' hwatched

/-- Over any operations and polls, `PollPoller` follows `EPollPoller`, watches the same and
reports the same active channels with the same events, if and only if the operations meet the
condition under which the two are interchangeable without polls. -/
theorem reports_iff (hc : Constructed S h₀) (calls : List Call) :
    SameReports S h₀ calls ↔
      System.Meets (epollRuns h₀) (Takes S) KeepsOps (start EPollPoller.new h₀) calls := by
  apply System.follows_iff_meets (R := Related S) (related_start hc)
  · intro pre e p h
    exact h.looksSame
  · intro pre e p call e' h hp hn hk
    have hn : epollStep e call = .ok e' := Option.some.inj hn
    cases call with
    | op op =>
        obtain ⟨p', hp', hrel⟩ := h.op hp hn hk
        exact ⟨p', congrArg some hp', hrel⟩
    | poll ready fds =>
        obtain ⟨p', hp', hrel⟩ := h.poll hp hn
        exact ⟨p', congrArg some hp', hrel⟩
  · intro pre e p call e' p' h hp hn hnp hsame
    cases call with
    | op op => exact h.keeps hp (Option.some.inj hn) (Option.some.inj hnp) hsame
    | poll ready fds => trivial

/-- An answer that has the whole interest list. -/
theorem takes_poll {s : Polled EPollPoller} {ready : Nat → Events} {fds : List Nat}
    (hw : ∀ fd, fd ∉ fds → s.loop.poller.interest fd = none) (hfits : fds.length ≤ s.size)
    (hnodup : fds.Nodup) (hsound : ∀ fd ∈ fds, s.loop.poller.isReady ready fd = true) :
    Takes S s (.poll ready fds) := by
  have hall : ∀ fd, s.loop.poller.isReady ready fd = true → fd ∈ fds :=
    fun _ => EPollPoller.mem_of_isReady hw
  exact ⟨⟨hfits, hnodup, hsound, fun _ => hall⟩, hall⟩

/-- Two channels have something to read; one of them stops to read and is removed. -/
def pollBetween : List Call :=
  [.op (.update .enableReading 0), .op (.update .enableReading 1),
    .poll (fun _ => { pollIn := true }) [6, 5], .op (.update .disableAll 0),
    .poll (fun _ => { pollIn := true }) [6], .op (.remove 0)]

theorem reports_iff_sample : SameReports {0, 1} (fun a => Channel.new (a + 5)) pollBetween ∧
    ∃ e, (epollRuns fun a => Channel.new (a + 5)).Run (Takes {0, 1})
      (start EPollPoller.new fun a => Channel.new (a + 5)) pollBetween e := by
  constructor
  · apply (reports_iff PollersAgree.constructed_pair _).mpr
    refine .cons ?_ rfl (.cons ?_ rfl (.cons ?_ rfl (.cons ?_ rfl (.cons ?_ rfl
      (.cons ?_ rfl System.meets_nil)))))
    · exact ⟨by rintro u a ⟨⟩; decide, by rintro u a ⟨⟩; decide, nofun⟩
    · exact ⟨by rintro u a ⟨⟩; decide, by rintro u a ⟨⟩; decide, nofun⟩
    · trivial
    · exact ⟨by rintro u a ⟨⟩; decide, by rintro u a ⟨⟩; decide, nofun⟩
    · trivial
    · exact ⟨nofun, nofun, by rintro a ⟨⟩; rfl⟩
  · refine ⟨_, .cons ?_ rfl (.cons ?_ rfl (.cons ?_ rfl (.cons ?_ rfl (.cons ?_ rfl
      (.cons ?_ rfl .nil)))))⟩
    · exact Or.inl rfl
    · exact Or.inr rfl
    · refine takes_poll (fun fd hfd => ?_) (by decide) (by decide) (by decide)
      simp only [List.mem_cons, List.not_mem_nil, or_false, not_or] at hfd
      show Function.update (Function.update (fun _ => (none : Option (Events × ChannelPtr))) 5 _)
        6 _ fd = none
      rw [Function.update_of_ne hfd.1, Function.update_of_ne hfd.2]
    · exact Or.inl rfl
    · refine takes_poll (fun fd hfd => ?_) (by decide) (by decide) (by decide)
      have hsix : fd ≠ 6 := fun h => hfd (List.mem_singleton.mpr h)
      show Function.update (Function.update (Function.update
        (fun _ => (none : Option (Events × ChannelPtr))) 5 _) 6 _) 5 none fd = none
      by_cases hfive : fd = 5
      · rw [hfive, Function.update_self]
      · rw [Function.update_of_ne hfive, Function.update_of_ne hsix,
          Function.update_of_ne hfive]
    · exact Or.inl rfl

end PollersReport

end Zing.Net
