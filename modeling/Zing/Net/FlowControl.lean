import Zing.Net.TcpStream

set_option autoImplicit false

/-! # Flow control

The high-water and the write-complete callback tell the user how much of the output is still
waiting. `flow` is the connection of `stream` with a record of its calls of `sendInLoop` and
`handleWrite`: the connection before and after, and the effects. `flow_control` reads the
callbacks queued along a run off the sizes of the output buffer: a high-water callback where the
size comes up to the mark, and a write-complete callback where a message or what was waiting of
it is written to its end.
-/

namespace Zing.Net.TcpConnection

open Zing.Lib

/-- The readable size of the output buffer. -/
def waiting (conn : TcpConnection) : Nat := conn.outputBuffer.readableBytes

/-- A call of `sendInLoop` or `handleWrite` in a run. -/
structure FlowStep where
  action : StreamAction
  before : TcpConnection
  after : TcpConnection
  effects : List Effect

/-- The sizes that high-water callbacks are queued with. -/
def highWaterSizes (effects : List Effect) : List Nat :=
  effects.filterMap fun
    | .queueInLoop (.highWaterMarkCallback size) => some size
    | _ => none

/-- The write-complete callbacks that are queued. -/
def writeCompletes (effects : List Effect) : List Functor :=
  effects.filterMap fun
    | .queueInLoop .writeCompleteCallback => some .writeCompleteCallback
    | _ => none

namespace FlowStep

/-- The size comes up to the mark. -/
def Crosses (mark : Nat) (st : FlowStep) : Prop :=
  st.before.waiting < mark ∧ mark ≤ st.after.waiting

instance (mark : Nat) (st : FlowStep) : Decidable (st.Crosses mark) :=
  inferInstanceAs (Decidable (_ ∧ _))

/-- A message is written to its end directly, or the buffer is written empty. -/
def Completes (st : FlowStep) : Prop :=
  match st.action with
  | .sendInLoop data _ => .write data (.accepted data.length) ∈ st.effects
  | _ => 0 < st.before.waiting ∧ st.after.waiting = 0

end FlowStep

/-- What is recorded of a step. -/
def flowStep (s : StreamState) (a : StreamAction) : List FlowStep :=
  let record (r : Except Assertion (TcpConnection × List Effect)) : List FlowStep :=
    match r with
    | .ok (conn, effects) => [⟨a, s.conn, conn, effects⟩]
    | .error _ => []
  match a with
  | .sendInLoop data r => record (s.conn.sendInLoop data r)
  | .handleWrite r => record (s.conn.handleWrite r)
  | _ => []

/-- The runs of a connection that is up, with the record of its calls. -/
def flow : System (StreamState × List FlowStep) StreamAction Assertion := stream.logged flowStep

/-- Both callbacks are set, and the mark. -/
structure Watched (mark : Nat) (conn : TcpConnection) : Prop where
  writeComplete : conn.writeCompleteCallback = true
  highWater : conn.highWaterMarkCallback = true
  mark_eq : conn.highWaterMark = mark

variable {mark : Nat} {conn conn' : TcpConnection} {effects : List Effect} {data : List Byte}
  {r : WriteResult}

/-- What one call queues. -/
structure Notifies (mark : Nat) (st : FlowStep) : Prop where
  highWater : highWaterSizes st.effects = if st.Crosses mark then [st.after.waiting] else []
  complete : st.Completes → writeCompletes st.effects = [.writeCompleteCallback]
  incomplete : ¬ st.Completes → writeCompletes st.effects = []
  drained : writeCompletes st.effects ≠ [] → st.after.waiting = 0

/-! ## The effects of the parts of `sendInLoop` -/

theorem highWaterSizes_append (as bs : List Effect) :
    highWaterSizes (as ++ bs) = highWaterSizes as ++ highWaterSizes bs := List.filterMap_append

theorem writeCompletes_append (as bs : List Effect) :
    writeCompletes (as ++ bs) = writeCompletes as ++ writeCompletes bs := List.filterMap_append

theorem Watched.writeCompleteEffects_eq (h : conn.Watched mark) :
    conn.writeCompleteEffects = [.queueInLoop .writeCompleteCallback] := by
  rw [writeCompleteEffects, if_pos h.writeComplete]

theorem Watched.highWaterEffects_eq (h : conn.Watched mark) (remaining : Nat) :
    highWaterSizes (conn.highWaterEffects remaining)
        = (if conn.waiting < mark ∧ mark ≤ conn.waiting + remaining
            then [conn.waiting + remaining] else []) ∧
      writeCompletes (conn.highWaterEffects remaining) = [] := by
  rw [highWaterEffects, h.highWater, h.mark_eq]
  by_cases hc : conn.waiting < mark ∧ mark ≤ conn.waiting + remaining
  · have hcode : conn.outputBuffer.readableBytes + remaining ≥ mark ∧
        conn.outputBuffer.readableBytes < mark ∧ true = true := ⟨hc.2, hc.1, rfl⟩
    rw [if_pos hcode, if_pos hc]
    exact ⟨rfl, rfl⟩
  · have hcode : ¬ (conn.outputBuffer.readableBytes + remaining ≥ mark ∧
        conn.outputBuffer.readableBytes < mark ∧ true = true) :=
      fun hall => hc ⟨hall.2.1, hall.1⟩
    rw [if_neg hcode, if_neg hc]
    exact ⟨rfl, rfl⟩

/-- The direct write queues the write-complete callback if it took the whole message, and then
nothing is waiting. -/
theorem Watched.directWrite_effects (hwatch : conn.Watched mark) (hr : r.Legal data.length) :
    highWaterSizes (conn.directWrite data r).effects = [] ∧
      ((.write data (.accepted data.length) ∈ (conn.directWrite data r).effects ∧
          writeCompletes (conn.directWrite data r).effects = [.writeCompleteCallback] ∧
          (conn.directWrite data r).remaining = 0 ∧ conn.waiting = 0) ∨
        (.write data (.accepted data.length) ∉ (conn.directWrite data r).effects ∧
          writeCompletes (conn.directWrite data r).effects = [])) := by
  by_cases hd : conn.writesDirectly = true
  · have hzero : conn.waiting = 0 := by
      simp only [writesDirectly, Bool.and_eq_true, decide_eq_true_eq] at hd
      exact hd.2
    cases r with
    | accepted n =>
        have hn : n ≤ data.length := hr
        unfold directWrite
        rw [if_pos hd]
        by_cases hall : data.length - n = 0
        · have heq : n = data.length := by omega
          subst heq
          simp only [hall, if_true, hwatch.writeCompleteEffects_eq]
          exact ⟨rfl, Or.inl ⟨List.mem_cons_self, rfl, trivial, hzero⟩⟩
        · have hne : data.length ≠ n := by omega
          simp only [if_neg hall]
          exact ⟨rfl, Or.inr ⟨by simp [hne], rfl⟩⟩
    | failed errno =>
        unfold directWrite
        rw [if_pos hd]
        exact ⟨rfl, Or.inr ⟨by simp, rfl⟩⟩
  · unfold directWrite
    rw [if_neg hd]
    exact ⟨rfl, Or.inr ⟨by simp, rfl⟩⟩

/-! ## One call -/

/-- What is left over is kept, and told to the poller or not. -/
theorem Watched.notifies_kept (hwatch : conn.Watched mark) (hr : r.Legal data.length)
    (hpos : 0 < (conn.directWrite data r).remaining) {after : TcpConnection}
    (hafter : after.waiting = conn.waiting + (conn.directWrite data r).remaining)
    {tail : List Effect} (htail : tail = [] ∨ tail = [.updateChannel]) :
    Notifies mark ⟨.sendInLoop data r, conn, after, (conn.directWrite data r).effects ++
      conn.highWaterEffects (conn.directWrite data r).remaining ++ tail⟩ := by
  obtain ⟨hhigh, hdirect⟩ := hwatch.directWrite_effects (r := r) hr
  -- with bytes left over the direct write was not complete
  have hpart : .write data (.accepted data.length) ∉ (conn.directWrite data r).effects ∧
      writeCompletes (conn.directWrite data r).effects = [] := by
    rcases hdirect with ⟨-, -, hzero, -⟩ | hnot
    · omega
    · exact hnot
  obtain ⟨hsizes, hnoComplete⟩ :=
    hwatch.highWaterEffects_eq (conn.directWrite data r).remaining
  have htails : highWaterSizes tail = [] ∧ writeCompletes tail = [] ∧
      .write data (.accepted data.length) ∉ tail := by
    rcases htail with rfl | rfl
    · exact ⟨rfl, rfl, List.not_mem_nil⟩
    · exact ⟨rfl, rfl, by simp⟩
  have hnotHigh : .write data (.accepted data.length) ∉
      conn.highWaterEffects (conn.directWrite data r).remaining := by
    rw [highWaterEffects]
    split <;> simp
  have hnone : writeCompletes ((conn.directWrite data r).effects ++
      conn.highWaterEffects (conn.directWrite data r).remaining ++ tail) = [] := by
    rw [writeCompletes_append, writeCompletes_append, hpart.2, hnoComplete, htails.2.1]
    rfl
  have hnotComplete : ¬ FlowStep.Completes ⟨.sendInLoop data r, conn, after,
      (conn.directWrite data r).effects ++
      conn.highWaterEffects (conn.directWrite data r).remaining ++ tail⟩ := by
    intro hc
    rcases List.mem_append.mp hc with hc | hc
    · rcases List.mem_append.mp hc with hc | hc
      · exact hpart.1 hc
      · exact hnotHigh hc
    · exact htails.2.2 hc
  refine ⟨?_, fun hc => absurd hc hnotComplete, fun _ => hnone, fun hc => absurd hnone hc⟩
  rw [highWaterSizes_append, highWaterSizes_append, hhigh, hsizes, htails.1,
    List.nil_append, List.append_nil, ← hafter]
  rfl

/-- Nothing is kept, and the write was complete if it took the whole message. -/
theorem Watched.notifies_direct (hwatch : conn.Watched mark) (hr : r.Legal data.length) :
    Notifies mark ⟨.sendInLoop data r, conn, conn, (conn.directWrite data r).effects⟩ := by
  obtain ⟨hhigh, hdirect⟩ := hwatch.directWrite_effects (r := r) hr
  have hcross : ¬ FlowStep.Crosses mark ⟨.sendInLoop data r, conn, conn,
      (conn.directWrite data r).effects⟩ := fun hc => Nat.not_lt_of_le hc.2 hc.1
  refine ⟨?_, ?_, ?_, ?_⟩
  · rw [if_neg hcross]
    exact hhigh
  · intro hc
    rcases hdirect with ⟨-, hqueued, -⟩ | ⟨hnot, -⟩
    · exact hqueued
    · exact absurd hc hnot
  · intro hc
    rcases hdirect with ⟨hmem, -⟩ | ⟨-, hnone⟩
    · exact absurd hmem hc
    · exact hnone
  · intro hc
    rcases hdirect with ⟨-, -, -, hzero⟩ | ⟨-, hnone⟩
    · exact hzero
    · exact absurd hnone hc

theorem sendInLoop_notifies (h : conn.Ready) (hwatch : conn.Watched mark)
    (hup : conn.state ≠ .kDisconnected) (hr : r.Legal data.length)
    (hok : conn.sendInLoop data r = .ok (conn', effects)) :
    conn'.Watched mark ∧ Notifies mark ⟨.sendInLoop data r, conn, conn', effects⟩ := by
  have hd := directWrite_splits h data hr
  have hl := hd.lengths
  have hle : (conn.directWrite data r).remaining ≤ data.length := by omega
  rw [sendInLoop, if_neg hup, bufferRemaining, check_bind hle] at hok
  split at hok
  · case isTrue hkeep =>
      simp only [Bool.and_eq_true, Bool.not_eq_true', decide_eq_true_eq] at hkeep
      obtain ⟨-, hrem⟩ := hkeep
      obtain ⟨out, hout, hwf, hread, -⟩ := Buffer.append_spec h.wf
        ((data.drop (conn.directWrite data r).nwrote).take (conn.directWrite data r).remaining)
      have hsize : out.readableBytes
          = conn.waiting + (conn.directWrite data r).remaining := by
        have hlength := congrArg List.length hread
        rw [hd.rest, List.length_append, List.length_drop, Buffer.length_readable hwf,
          Buffer.length_readable h.wf] at hlength
        rw [waiting]
        omega
      rw [hout] at hok
      simp only [nested_ok, ok_bind] at hok
      split at hok
      · cases hok
        refine ⟨⟨hwatch.writeComplete, hwatch.highWater, hwatch.mark_eq⟩, ?_⟩
        refine hwatch.notifies_kept hr hrem ?_ (Or.inr rfl)
        exact hsize
      · cases hok
        have hafter : waiting { conn with outputBuffer := out }
            = conn.waiting + (conn.directWrite data r).remaining := hsize
        have hempty := hwatch.notifies_kept hr hrem hafter (Or.inl rfl)
        rw [List.append_nil] at hempty
        exact ⟨⟨hwatch.writeComplete, hwatch.highWater, hwatch.mark_eq⟩, hempty⟩
  · cases hok
    exact ⟨hwatch, hwatch.notifies_direct hr⟩

theorem Watched.outputDrained_effects (h : conn.Watched mark) :
    highWaterSizes conn.outputDrained.2 = [] ∧
      writeCompletes conn.outputDrained.2 = [.writeCompleteCallback] := by
  have hcomplete : writeCompleteEffects { conn with channel := conn.channel.disableWriting }
      = [.queueInLoop .writeCompleteCallback] := by
    rw [writeCompleteEffects, if_pos h.writeComplete]
  have hnoWrite : (conn.channel.disableWriting).isWriting = false :=
    Channel.isWriting_disableWriting _
  simp only [outputDrained, hcomplete, shutdownInLoop, hnoWrite]
  split <;> exact ⟨rfl, rfl⟩

theorem handleWrite_notifies (h : conn.Ready) (hwatch : conn.Watched mark)
    (hr : r.Legal conn.outputBuffer.readable.length)
    (hok : conn.handleWrite r = .ok (conn', effects)) :
    conn'.Watched mark ∧ Notifies mark ⟨.handleWrite r, conn, conn', effects⟩ := by
  -- a call that leaves the buffer as it is
  have hsame : ∀ effects, highWaterSizes effects = [] → writeCompletes effects = [] →
      conn.Watched mark ∧ Notifies mark ⟨.handleWrite r, conn, conn, effects⟩ := by
    intro effects hhigh hcomplete
    refine ⟨hwatch, ?_, ?_, fun _ => hcomplete, fun hc => absurd hcomplete hc⟩
    · rw [if_neg fun hc => Nat.not_lt_of_le hc.2 hc.1]
      exact hhigh
    · rintro ⟨hpos, hzero⟩
      exact absurd hzero (Nat.ne_of_gt hpos)
  rw [handleWrite] at hok
  split at hok
  · case isTrue hw =>
      cases r with
      | failed errno =>
          cases hok
          exact hsame _ rfl rfl
      | accepted n =>
          have hn : n ≤ conn.waiting := by
            rw [waiting, ← Buffer.length_readable h.wf]
            exact hr
          simp only at hok
          split at hok
          · case isTrue hpos =>
              obtain ⟨out, hout, hwf, hread, -⟩ := Buffer.retrieve_spec h.wf hn
              have hsize : out.readableBytes = conn.waiting - n := by
                rw [← Buffer.length_readable hwf, hread, List.length_drop,
                  Buffer.length_readable h.wf, waiting]
              have hcross : ∀ (after : TcpConnection) effects, after.outputBuffer = out →
                  ¬ FlowStep.Crosses mark ⟨.handleWrite (.accepted n), conn, after, effects⟩ := by
                rintro after effects hafter ⟨hlt, hge⟩
                have hle : after.waiting = conn.waiting - n := by
                  rw [← hsize, ← hafter]
                  rfl
                simp only at hlt hge
                omega
              rw [hout] at hok
              simp only [nested_ok, ok_bind] at hok
              split at hok
              · case isTrue hzero =>
                  cases hok
                  have hdrained : Watched mark { conn with outputBuffer := out } :=
                    ⟨hwatch.writeComplete, hwatch.highWater, hwatch.mark_eq⟩
                  obtain ⟨hhigh, hcomplete⟩ := hdrained.outputDrained_effects
                  have hpos' : 0 < conn.waiting := Nat.lt_of_lt_of_le hpos hn
                  refine ⟨⟨hdrained.writeComplete, hdrained.highWater, hdrained.mark_eq⟩, ?_,
                    fun _ => hcomplete, ?_, fun _ => hzero⟩
                  · rw [if_neg (hcross _ _ rfl)]
                    exact hhigh
                  · exact fun hc => absurd ⟨hpos', hzero⟩ hc
              · case isFalse hleft =>
                  cases hok
                  refine ⟨⟨hwatch.writeComplete, hwatch.highWater, hwatch.mark_eq⟩, ?_, ?_, ?_, ?_⟩
                  · rw [if_neg (hcross _ _ rfl)]
                    rfl
                  · exact fun hc => absurd hc.2 hleft
                  · exact fun _ => rfl
                  · exact fun hc => absurd rfl hc
          · cases hok
            exact hsame _ rfl rfl
  · cases hok
    exact hsame _ rfl rfl

/-! ## Runs -/

/-- What holds along a run: each call has notified, and the sizes before the calls, with the
present one, are zero and the sizes after them. -/
structure FlowInv (mark : Nat) (s : StreamState × List FlowStep) : Prop where
  stream : s.1.Inv
  watched : s.1.conn.Watched mark
  notified : ∀ st ∈ s.2, Notifies mark st
  sizes : s.2.map (fun st => st.before.waiting) ++ [s.1.conn.waiting]
    = 0 :: s.2.map fun st => st.after.waiting

theorem FlowInv.record {s : StreamState × List FlowStep} {s' : StreamState} {st : FlowStep}
    (h : FlowInv mark s) (hinv : s'.Inv) (hwatched : s'.conn.Watched mark)
    (hnotifies : Notifies mark st) (hbefore : st.before = s.1.conn)
    (hafter : st.after = s'.conn) : FlowInv mark (s', s.2 ++ [st]) := by
  refine ⟨hinv, hwatched, ?_, ?_⟩
  · intro st' hst'
    rcases List.mem_append.mp hst' with hst' | hst'
    · exact h.notified st' hst'
    · rw [List.mem_singleton.mp hst']
      exact hnotifies
  · show (s.2 ++ [st]).map _ ++ [s'.conn.waiting] = 0 :: (s.2 ++ [st]).map _
    rw [List.map_append, List.map_append, List.map_singleton, List.map_singleton, hbefore, hafter,
      h.sizes]
    rfl

/-- The other operations leave the size and the settings. -/
theorem FlowInv.other {s : StreamState × List FlowStep} {s' : StreamState}
    (h : FlowInv mark s) (hinv : s'.Inv) (hsize : s'.conn.waiting = s.1.conn.waiting)
    (hwatched : s'.conn.Watched mark) : FlowInv mark (s', s.2 ++ []) := by
  rw [List.append_nil]
  refine ⟨hinv, hwatched, h.notified, ?_⟩
  show s.2.map _ ++ [s'.conn.waiting] = _
  rw [hsize]
  exact h.sizes

theorem flow_step {s t : StreamState × List FlowStep} {a : StreamAction}
    (h : FlowInv mark s) (hn : flow.Next s a t) : FlowInv mark t := by
  obtain ⟨s', log⟩ := t
  obtain ⟨hnext, hlog⟩ := System.logged_next.mp hn
  have hstep : s.1.step a = some (.ok s') := hnext
  simp only at hlog
  subst hlog
  have hinv := stream_next h.stream hnext
  cases a with
  | sendInLoop data r =>
      simp only [StreamState.step] at hstep
      obtain ⟨hguard, hdo⟩ := of_guard hstep
      obtain ⟨⟨conn', effects⟩, hok, hs'⟩ := bind_eq_ok.mp hdo
      cases hs'
      obtain ⟨hwatched, hnotifies⟩ := sendInLoop_notifies h.stream.ready h.watched
        (ne_disconnected_of_isUp hguard.1) hguard.2 hok
      simp only [flowStep, hok]
      exact h.record hinv hwatched hnotifies rfl rfl
  | handleWrite r =>
      simp only [StreamState.step] at hstep
      obtain ⟨hguard, hdo⟩ := of_guard hstep
      obtain ⟨⟨conn', effects⟩, hok, hs'⟩ := bind_eq_ok.mp hdo
      cases hs'
      obtain ⟨hwatched, hnotifies⟩ :=
        handleWrite_notifies h.stream.ready h.watched hguard.2 hok
      simp only [flowStep, hok]
      exact h.record hinv hwatched hnotifies rfl rfl
  | shutdown =>
      simp only [StreamState.step] at hstep
      obtain ⟨-, hs'⟩ := of_guard hstep
      cases hs'
      exact h.other hinv rfl ⟨h.watched.writeComplete, h.watched.highWater, h.watched.mark_eq⟩
  | startReadInLoop =>
      simp only [StreamState.step] at hstep
      obtain ⟨-, hs'⟩ := of_guard hstep
      cases hs'
      have hsame : s.1.conn.startReadInLoop.1.waiting = s.1.conn.waiting ∧
          s.1.conn.startReadInLoop.1.Watched mark := by
        rw [startReadInLoop]
        split
        · exact ⟨rfl, h.watched.writeComplete, h.watched.highWater, h.watched.mark_eq⟩
        · exact ⟨rfl, h.watched⟩
      exact h.other hinv hsame.1 hsame.2
  | stopReadInLoop =>
      simp only [StreamState.step] at hstep
      obtain ⟨-, hs'⟩ := of_guard hstep
      cases hs'
      have hsame : s.1.conn.stopReadInLoop.1.waiting = s.1.conn.waiting ∧
          s.1.conn.stopReadInLoop.1.Watched mark := by
        rw [stopReadInLoop]
        split
        · exact ⟨rfl, h.watched.writeComplete, h.watched.highWater, h.watched.mark_eq⟩
        · exact ⟨rfl, h.watched⟩
      exact h.other hinv hsame.1 hsame.2

/-! ## The history -/

/-- The sizes of the callbacks queued along a history. -/
theorem flatMap_highWater {log : List FlowStep} (h : ∀ st ∈ log, Notifies mark st) :
    (log.flatMap fun st => highWaterSizes st.effects)
      = (log.filter fun st => decide (st.Crosses mark)).map fun st => st.after.waiting := by
  induction log with
  | nil => rfl
  | cons st log ih =>
      have hrest := ih fun st' hst' => h st' (List.mem_cons_of_mem st hst')
      rw [List.flatMap_cons, hrest, (h st List.mem_cons_self).highWater]
      by_cases hc : st.Crosses mark
      · rw [if_pos hc, List.filter_cons_of_pos (by simpa using hc)]
        rfl
      · rw [if_neg hc, List.filter_cons_of_neg (by simpa using hc)]
        rfl

/-- Before a call the size is the one after the call before it. -/
theorem FlowInv.previous {s : StreamState × List FlowStep} (h : FlowInv mark s)
    {A C : List FlowStep} {st st' : FlowStep} (hsplit : s.2 = A ++ st :: st' :: C) :
    st'.before.waiting = st.after.waiting := by
  have hsizes := congrArg (fun l => l[A.length + 1]?) h.sizes
  simpa [hsplit, List.getElem?_append_right] using hsizes

/-- Between two calls at which the size comes up to the mark there is one that leaves it
below. -/
theorem FlowInv.between {s : StreamState × List FlowStep} (h : FlowInv mark s)
    {A B C : List FlowStep} {st st' : FlowStep} (hsplit : s.2 = A ++ st :: (B ++ st' :: C))
    (hst : st.Crosses mark) (hst' : st'.Crosses mark) : ∃ w ∈ B, w.after.waiting < mark := by
  rcases List.eq_nil_or_concat B with rfl | ⟨B, w, rfl⟩
  · have heq := h.previous hsplit
    have hlt := hst'.1
    have hge := hst.2
    omega
  · have hsplit' : s.2 = (A ++ st :: B) ++ w :: st' :: C := by
      rw [hsplit]
      simp
    have heq := h.previous hsplit'
    refine ⟨w, by simp, ?_⟩
    rw [← heq]
    exact hst'.1

theorem flow_init {sockfd : Nat} {s : StreamState} (hcalls : s.calls = [])
    (hmessages : s.messages = [])
    (hest : (configured sockfd true true mark).connectEstablished = .ok (s.conn, effects)) :
    FlowInv mark (s, []) := by
  have hinv := stream_init ⟨hcalls, hmessages, sockfd, true, true, mark, effects, hest⟩
  have hstate : (configured sockfd true true mark).state = .kConnecting := rfl
  rw [connectEstablished, check_bind hstate] at hest
  injection hest with hest
  injection hest with hconn _
  refine ⟨hinv, ?_, ?_, ?_⟩
  · show s.conn.Watched mark
    rw [← hconn]
    exact ⟨rfl, rfl, rfl⟩
  · intro _ hst
    cases hst
  · show [s.conn.waiting] = [0]
    rw [← hconn]
    rfl

/-- Notifications match the history of the output buffer. Along every run, high-water callbacks
are queued by the calls that bring the size up to the mark, in their order and with the size
right after, and between two of them the size was below the mark. Write-complete callbacks are
queued by the calls of `sendInLoop` whose direct write took the whole message and by those of
`handleWrite` that empty the buffer, and when one is queued nothing is waiting. -/
theorem flow_control (sockfd mark : Nat) (s₀ s : StreamState) (effects : List Effect)
    (as : List StreamAction) (log : List FlowStep)
    (hest : (configured sockfd true true mark).connectEstablished = .ok (s₀.conn, effects))
    (hcalls : s₀.calls = []) (hmessages : s₀.messages = [])
    (hrun : flow.Run System.always (s₀, []) as (s, log)) :
    (log.flatMap fun st => highWaterSizes st.effects)
        = ((log.filter fun st => decide (st.Crosses mark)).map fun st => st.after.waiting) ∧
      (∀ st ∈ log, highWaterSizes st.effects
        = if st.Crosses mark then [st.after.waiting] else []) ∧
      (∀ A B C st st', log = A ++ st :: (B ++ st' :: C) → st.Crosses mark → st'.Crosses mark →
        ∃ w ∈ B, w.after.waiting < mark) ∧
      (∀ st ∈ log, (st.Completes → writeCompletes st.effects = [.writeCompleteCallback]) ∧
        (¬ st.Completes → writeCompletes st.effects = []) ∧
        (writeCompletes st.effects ≠ [] → st.after.waiting = 0)) ∧
      log.map (fun st => st.before.waiting) ++ [s.conn.waiting]
        = 0 :: log.map fun st => st.after.waiting := by
  have hinv : FlowInv mark (s, log) :=
    hrun.invariant (I := FlowInv mark) (fun _ _ _ hs _ hn => flow_step hs hn)
      (flow_init hcalls hmessages hest)
  refine ⟨flatMap_highWater hinv.notified, fun st hst => (hinv.notified st hst).highWater, ?_, ?_,
    hinv.sizes⟩
  · intro A B C st st' hsplit hst hst'
    exact hinv.between hsplit hst hst'
  · intro st hst
    have hn := hinv.notified st hst
    exact ⟨hn.complete, hn.incomplete, hn.drained⟩

/-- A connection with both callbacks that has just come up. -/
def flowStart : StreamState where
  conn := { configured 7 true true 2 with
    state := .kConnected
    channel := (Channel.new 7).tie.enableReading }
  calls := []
  messages := []

set_option maxRecDepth 10000 in
/-- The mark is reached twice, and the buffer is emptied in between. -/
theorem flow_control_sample : ∃ s log, flow.Run System.always (flowStart, [])
      [.sendInLoop [1, 2, 3] (.accepted 1), .sendInLoop [4] (.accepted 0),
        .handleWrite (.accepted 3), .sendInLoop [5, 6] (.failed EWOULDBLOCK)] (s, log) ∧
    (log.flatMap fun st => highWaterSizes st.effects) = [2, 2] := by
  have hrun : flow.Run System.always (flowStart, [])
      [.sendInLoop [1, 2, 3] (.accepted 1), .sendInLoop [4] (.accepted 0),
        .handleWrite (.accepted 3), .sendInLoop [5, 6] (.failed EWOULDBLOCK)] (_, _) :=
    System.run_of_exec rfl
  exact ⟨_, _, hrun, (flow_control 7 2 flowStart _ _ _ _ rfl rfl rfl hrun).1.trans rfl⟩

end Zing.Net.TcpConnection
