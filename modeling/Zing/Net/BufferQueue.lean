import Zing.Lib.System
import Zing.Net.Buffer
import Mathlib.Logic.Function.Basic

set_option autoImplicit false

/-! # Buffers as byte queues

A family of buffers, indexed by any type, is driven by any sequence of the public operations
of `Buffer`, each called where the assertion it makes on entry holds. The abstract machine
(`Queues`) keeps a list of bytes for each buffer and remembers into which contents `prepend`
has put bytes; `swap` exchanges the contents together with that mark.

`run_spec` is the refinement: the buffers stay well-formed, their readable bytes are the
abstract lists, the strings handed out are the abstract ones, and no assertion fails.
-/

namespace Zing.Net

open Zing.Lib

namespace Buffer

/-- An operation on one buffer. `retrieveUntil n` is called with the pointer `peek() + n`;
`write data len` copies `data` to `beginWrite()` and calls `hasWritten(len)`. -/
inductive Op
  | append (data : List Byte)
  | prepend (data : List Byte)
  | retrieve (len : Nat)
  | retrieveUntil (n : Nat)
  | retrieveAll
  | retrieveAsString (len : Nat)
  | ensureWritableBytes (len : Nat)
  | write (data : List Byte) (len : Nat)
  | unwrite (len : Nat)
  deriving DecidableEq, Repr

namespace Op

/-- The assertion an operation makes on entry. -/
def entry (b : Buffer) : Op → Prop
  | append _ => True
  | prepend data => data.length ≤ b.prependableBytes
  | retrieve len => len ≤ b.readableBytes
  | retrieveUntil n => b.readerIndex + n ≤ b.writerIndex
  | retrieveAll => True
  | retrieveAsString len => len ≤ b.readableBytes
  | ensureWritableBytes _ => True
  | write data len => data.length ≤ b.writableBytes ∧ len ≤ data.length
  | unwrite len => len ≤ b.readableBytes

instance (b : Buffer) : (o : Op) → Decidable (o.entry b)
  | append _ => inferInstanceAs (Decidable True)
  | prepend data => inferInstanceAs (Decidable (data.length ≤ b.prependableBytes))
  | retrieve len => inferInstanceAs (Decidable (len ≤ b.readableBytes))
  | retrieveUntil n => inferInstanceAs (Decidable (b.readerIndex + n ≤ b.writerIndex))
  | retrieveAll => inferInstanceAs (Decidable True)
  | retrieveAsString len => inferInstanceAs (Decidable (len ≤ b.readableBytes))
  | ensureWritableBytes _ => inferInstanceAs (Decidable True)
  | write data len =>
      inferInstanceAs (Decidable (data.length ≤ b.writableBytes ∧ len ≤ data.length))
  | unwrite len => inferInstanceAs (Decidable (len ≤ b.readableBytes))

/-- Run an operation: the string it returns (`[]` for those that return none) and the buffer
it leaves. -/
def exec (b : Buffer) : Op → Except Assertion (List Byte × Buffer)
  | append data => do return ([], ← b.append data)
  | prepend data => do return ([], ← b.prepend data)
  | retrieve len => do return ([], ← b.retrieve len)
  | retrieveUntil n => do return ([], ← b.retrieveUntil (b.readerIndex + n))
  | retrieveAll => return ([], b.retrieveAll)
  | retrieveAsString len => b.retrieveAsString len
  | ensureWritableBytes len => do return ([], ← b.ensureWritableBytes len)
  | write data len => do return ([], ← (b.copyToWrite data).hasWritten len)
  | unwrite len => do return ([], ← b.unwrite len)

/-! ## The byte queue -/

/-- What an operation does to the queue of bytes. -/
def effect (q : List Byte) : Op → List Byte
  | append data => q ++ data
  | prepend data => data ++ q
  | retrieve len => q.drop len
  | retrieveUntil n => q.drop n
  | retrieveAll => []
  | retrieveAsString len => q.drop len
  | ensureWritableBytes _ => q
  | write data len => q ++ data.take len
  | unwrite len => q.take (q.length - len)

/-- The string an operation hands out. -/
def result (q : List Byte) : Op → List Byte
  | retrieveAsString len => q.take len
  | _ => []

/-- Whether an operation is a call of `prepend`. -/
def isPrepend : Op → Bool
  | prepend _ => true
  | _ => false

/-- **One operation refines the byte queue.** Called where its entry assertion holds, it
fails no assertion, keeps the buffer well-formed and does to the readable bytes what
`effect` says; only `prepend` can use up the cheap-prepend reserve. -/
theorem exec_spec {b : Buffer} (h : b.WF) (o : Op) (ho : o.entry b) :
    ∃ b', o.exec b = .ok (o.result b.readable, b') ∧ b'.WF
      ∧ b'.readable = o.effect b.readable
      ∧ (o.isPrepend = false → KeepsReserve b b') := by
  cases o with
  | append data =>
      obtain ⟨b', hb, hwf, hread, hres⟩ := append_spec h data
      exact ⟨b', by rw [exec, hb]; rfl, hwf, hread, fun _ => hres⟩
  | prepend data =>
      obtain ⟨b', hb, hwf, hread⟩ := prepend_spec h ho
      exact ⟨b', by rw [exec, hb]; rfl, hwf, hread, fun hp => by cases hp⟩
  | retrieve len =>
      obtain ⟨b', hb, hwf, hread, hres⟩ := retrieve_spec h ho
      exact ⟨b', by rw [exec, hb]; rfl, hwf, hread, fun _ => hres⟩
  | retrieveUntil n =>
      obtain ⟨b', hb, hwf, hread, hres⟩ := retrieveUntil_spec h (Nat.le_add_right _ n) ho
      rw [Nat.add_sub_cancel_left] at hread
      exact ⟨b', by rw [exec, hb]; rfl, hwf, hread, fun _ => hres⟩
  | retrieveAll =>
      exact ⟨b.retrieveAll, rfl, retrieveAll_wf h, retrieveAll_readable b,
        fun _ _ => Nat.le_refl _⟩
  | retrieveAsString len =>
      obtain ⟨b', hb, hwf, hread, hres⟩ := retrieveAsString_spec h ho
      exact ⟨b', hb, hwf, hread, fun _ => hres⟩
  | ensureWritableBytes len =>
      obtain ⟨b', hb, hwf, hread, -, hres⟩ := ensureWritableBytes_spec h len
      exact ⟨b', by rw [exec, hb]; rfl, hwf, hread, fun _ => hres⟩
  | write data len =>
      obtain ⟨b', hb, hwf, hread, hres⟩ := copyToWrite_hasWritten_spec h ho.1 ho.2
      exact ⟨b', by rw [exec, hb]; rfl, hwf, hread, fun _ => hres⟩
  | unwrite len =>
      obtain ⟨b', hb, hwf, hread, hres⟩ := unwrite_spec h ho
      exact ⟨b', by rw [exec, hb]; rfl, hwf, hread, fun _ => hres⟩

end Op

/-! ## A family of buffers -/

variable {ι : Type} [DecidableEq ι]

/-- One call: an operation on the buffer `i`, or `i.swap(j)`. -/
inductive Call (ι : Type)
  | op (i : ι) (o : Op)
  | swap (i j : ι)

/-- The buffers, and the strings `retrieveAsString` has returned, in order. -/
structure Pool (ι : Type) where
  bufs : ι → Buffer
  returned : List (List Byte)

def Pool.start (initialSize : ι → Nat) : Pool ι := ⟨fun i => Buffer.new (initialSize i), []⟩

def Pool.step (s : Pool ι) : Call ι → Option (Except Assertion (Pool ι))
  | .op i o =>
      if o.entry (s.bufs i) then
        some do
          let (str, b) ← o.exec (s.bufs i)
          return { bufs := Function.update s.bufs i b, returned := s.returned ++ [str] }
      else
        none
  | .swap i j =>
      let (a, b) := (s.bufs i).swap (s.bufs j)
      some (.ok { s with bufs := Function.update (Function.update s.bufs i a) j b })

/-- The family of buffers `Buffer(initialSize i)`, driven by calls whose entry assertions
hold. -/
def pool (initialSize : ι → Nat) : System (Pool ι) (Call ι) Assertion where
  init s := s = Pool.start initialSize
  step := Pool.step

/-- The abstract machine: the contents of each buffer, whether `prepend` was called on
contents that are now in buffer `i`, and the strings returned. -/
structure Queues (ι : Type) where
  content : ι → List Byte
  prepended : ι → Bool
  returned : List (List Byte)

def Queues.start : Queues ι := ⟨fun _ => [], fun _ => false, []⟩

def Queues.step (q : Queues ι) : Call ι → Queues ι
  | .op i o =>
      { content := Function.update q.content i (o.effect (q.content i))
        prepended := Function.update q.prepended i (o.isPrepend || q.prepended i)
        returned := q.returned ++ [o.result (q.content i)] }
  | .swap i j =>
      { q with
        content := Function.update (Function.update q.content i (q.content j)) j (q.content i)
        prepended :=
          Function.update (Function.update q.prepended i (q.prepended j)) j (q.prepended i) }

/-- The abstract state after a list of calls on new buffers. -/
def queuesAfter (as : List (Call ι)) : Queues ι := as.foldl Queues.step Queues.start

/-- Buffer `i` represents its queue. -/
structure RepresentsAt (s : Pool ι) (q : Queues ι) (i : ι) : Prop where
  wf : (s.bufs i).WF
  readable : (s.bufs i).readable = q.content i
  reserve : q.prepended i = false → kCheapPrepend ≤ (s.bufs i).prependableBytes

/-- The refinement relation. -/
structure Represents (s : Pool ι) (q : Queues ι) : Prop where
  at_ : ∀ i, RepresentsAt s q i
  returned : s.returned = q.returned

omit [DecidableEq ι] in
theorem represents_start (initialSize : ι → Nat) :
    Represents (Pool.start initialSize) (Queues.start : Queues ι) :=
  ⟨fun _ => ⟨new_wf _, new_readable _, fun _ => Nat.le_refl _⟩, rfl⟩

/-- An operation on a represented buffer succeeds, and the new pool is represented by the
new queues. -/
theorem op_represents {s : Pool ι} {q : Queues ι} (h : Represents s q) (i : ι) (o : Op)
    (ho : o.entry (s.bufs i)) :
    ∃ t, s.step (.op i o) = some (.ok t) ∧ Represents t (q.step (.op i o)) := by
  have hi := h.at_ i
  obtain ⟨b', hb, hwf, hread, hres⟩ := Op.exec_spec hi.wf o ho
  refine ⟨⟨Function.update s.bufs i b', s.returned ++ [o.result (s.bufs i).readable]⟩,
    ?_, ?_, ?_⟩
  · rw [Pool.step, if_pos ho, hb]
    rfl
  · intro j
    by_cases hj : j = i
    · subst hj
      refine ⟨by simpa using hwf, ?_, ?_⟩
      · simp [Queues.step, hread, hi.readable]
      · intro hp
        simp only [Queues.step, Function.update_self, Bool.or_eq_false_iff] at hp ⊢
        exact hres hp.1 (hi.reserve hp.2)
    · have hsame := h.at_ j
      exact ⟨by simpa [hj] using hsame.wf, by simpa [hj, Queues.step] using hsame.readable,
        by simpa [hj, Queues.step] using hsame.reserve⟩
  · simp [Queues.step, h.returned, hi.readable]

theorem swap_represents {s : Pool ι} {q : Queues ι} (h : Represents s q) (i j : ι) :
    ∃ t, s.step (.swap i j) = some (.ok t) ∧ Represents t (q.step (.swap i j)) := by
  refine ⟨⟨Function.update (Function.update s.bufs i (s.bufs j)) j (s.bufs i), s.returned⟩,
    rfl, ?_, h.returned⟩
  intro k
  -- the contents of buffer `k` come from buffer `src`
  obtain ⟨src, hbuf, hcont, hpre⟩ : ∃ src,
      (Function.update (Function.update s.bufs i (s.bufs j)) j (s.bufs i)) k = s.bufs src
        ∧ (q.step (.swap i j)).content k = q.content src
        ∧ (q.step (.swap i j)).prepended k = q.prepended src := by
    by_cases hj : k = j
    · subst hj
      exact ⟨i, by simp, by simp [Queues.step], by simp [Queues.step]⟩
    · by_cases hi : k = i
      · subst hi
        exact ⟨j, by simp [hj], by simp [hj, Queues.step], by simp [hj, Queues.step]⟩
      · exact ⟨k, by simp [hi, hj], by simp [hi, hj, Queues.step],
          by simp [hi, hj, Queues.step]⟩
  have hsrc := h.at_ src
  refine ⟨?_, ?_, ?_⟩
  · simp only [hbuf]; exact hsrc.wf
  · simp only [hbuf, hcont]; exact hsrc.readable
  · simp only [hbuf, hpre]; exact hsrc.reserve

/-- A call that is made where its entry assertion holds succeeds. -/
theorem call_represents {s : Pool ι} {q : Queues ι} (h : Represents s q) (a : Call ι)
    (ha : s.step a ≠ none) : ∃ t, s.step a = some (.ok t) ∧ Represents t (q.step a) := by
  cases a with
  | swap i j => exact swap_represents h i j
  | op i o =>
      refine op_represents h i o ?_
      by_contra ho
      exact ha (by rw [Pool.step, if_neg ho])

theorem run_represents {initialSize : ι → Nat} {as : List (Call ι)} {s : Pool ι}
    (h : (pool initialSize).Run System.always (Pool.start initialSize) as s) :
    Represents s (queuesAfter as) := by
  refine h.refines (R := Represents) ?_ (represents_start initialSize)
  intro s a t q hs _ hn
  obtain ⟨t', ht', hrep⟩ := call_represents hs a (fun hnone => by
    rw [System.Next, show (pool initialSize).step s a = s.step a from rfl, hnone] at hn
    cases hn)
  have heq : some (Except.ok t) = some (.ok t') := hn.symm.trans ht'
  cases heq
  exact hrep

/-- **Buffers refine byte queues.** After any sequence of calls that meet their entry
assertions, each buffer is well-formed, its readable bytes and the strings returned are
those of the abstract queues, a buffer into whose contents `prepend` was never called still
has its reserve, and no next call fails an assertion. -/
theorem pool_refines_queues (initialSize : ι → Nat) {as : List (Call ι)} {s : Pool ι}
    (h : (pool initialSize).Run System.always (Pool.start initialSize) as s) :
    (∀ i, (s.bufs i).WF ∧ (s.bufs i).readable = (queuesAfter as).content i)
      ∧ s.returned = (queuesAfter as).returned
      ∧ (∀ i, (queuesAfter as).prepended i = false →
          kCheapPrepend ≤ (s.bufs i).prependableBytes)
      ∧ ∀ a e, ¬ (pool initialSize).Fails s a e := by
  have hrep := run_represents h
  refine ⟨fun i => ⟨(hrep.at_ i).wf, (hrep.at_ i).readable⟩, hrep.returned,
    fun i => (hrep.at_ i).reserve, ?_⟩
  intro a e hf
  have hf' : s.step a = some (.error e) := hf
  obtain ⟨t, ht, -⟩ := call_represents hrep a (by rw [hf']; exact Option.some_ne_none _)
  rw [hf'] at ht
  cases ht

/-- The calls of the witness below: content slides to the front in `makeSpace`, is
prepended to, and changes place with the content of another buffer. -/
def sampleCalls : List (Call Bool) :=
  [.op false (.append [1, 2, 3, 4, 5]), .op false (.retrieve 4), .op false (.append [6, 7, 8]),
    .op false (.prepend [9]), .op true (.append [10]), .swap false true,
    .op true (.retrieveAsString 2), .op false (.write [11, 12] 1)]

theorem pool_refines_queues_sample :
    ∃ s, (pool (fun _ : Bool => 6)).Run System.always (Pool.start fun _ => 6) sampleCalls s
      ∧ (s.bufs true).readable = [6, 7, 8] ∧ (s.bufs false).readable = [10, 11]
      ∧ s.returned.getLast? = some [] ∧ kCheapPrepend ≤ (s.bufs false).prependableBytes := by
  have hrun : (pool fun _ : Bool => 6).Run System.always (Pool.start fun _ => 6)
      sampleCalls _ := System.run_of_exec rfl
  obtain ⟨hq, hr, hres, -⟩ := pool_refines_queues _ hrun
  exact ⟨_, hrun, (hq true).2.trans rfl, (hq false).2.trans rfl,
    (congrArg List.getLast? hr).trans rfl, hres false rfl⟩

/-- `swap` hands a buffer on which `prepend` was never called contents that have been
prepended to, and with them fewer than `kCheapPrepend` prependable bytes. -/
theorem swap_moves_prepended :
    ∃ s, (pool (fun _ : Bool => 16)).Run System.always (Pool.start fun _ => 16)
        [.op true (.prepend [65]), .swap false true] s
      ∧ (∀ data, Call.op false (.prepend data) ∉
          ([.op true (.prepend [65]), .swap false true] : List (Call Bool)))
      ∧ (s.bufs false).prependableBytes = 7
      ∧ ¬ kCheapPrepend ≤ (s.bufs false).prependableBytes :=
  ⟨_, System.run_of_exec rfl, by simp, rfl, by decide⟩

end Buffer

end Zing.Net
