import Zing.Lib.Search
import Zing.Lib.System
import Zing.Net.Buffer

set_option autoImplicit false

/-! # Lines in a `Buffer`

`findCRLF` and `findEOL` look for the end of a line in the readable bytes, from `peek()` on or
from a position that the caller knows. A pointer is its distance from `begin()`, as in `Buffer`.

A reader of lines appends what arrives and takes the lines out, with `retrieveAsString` up to the
end of a line and `retrieve` over it. After a search in vain it may go on where the end of the
line may have begun, one byte before `beginWrite()` for `findCRLF`. `lines_framed` says that the
lines are those of the stream, whatever the portions that it arrives in.
-/

namespace Zing.Net

open Zing.Lib

namespace Buffer

/-- The assertions of the searches from a position. -/
inductive SearchAssertion
  | peek
  | beginWrite
  deriving DecidableEq, Repr

def kCRLF : List Byte := [13, 10]

/-- `std::search(start, beginWrite(), kCRLF, kCRLF+2)`, `beginWrite()` where nothing is found -/
def searchCRLF (b : Buffer) (start : Nat) : Nat :=
  match firstMatch kCRLF (segment b.buffer start b.writerIndex) with
  | some i => start + i
  | none => b.writerIndex

def findCRLF (b : Buffer) : Option Nat :=
  if b.searchCRLF b.readerIndex = b.writerIndex then none else some (b.searchCRLF b.readerIndex)

/-- `findCRLF(start)` -/
def findCRLFFrom (b : Buffer) (start : Nat) : Except SearchAssertion (Option Nat) := do
  check (b.readerIndex ≤ start) .peek
  check (start ≤ b.writerIndex) .beginWrite
  return if b.searchCRLF start = b.writerIndex then none else some (b.searchCRLF start)

/-- `memchr(start, '\n', beginWrite() - start)` -/
def memchrEOL (b : Buffer) (start : Nat) : Option Nat :=
  (firstMatch [10] (segment b.buffer start b.writerIndex)).map (start + ·)

def findEOL (b : Buffer) : Option Nat := b.memchrEOL b.readerIndex

/-- `findEOL(start)` -/
def findEOLFrom (b : Buffer) (start : Nat) : Except SearchAssertion (Option Nat) := do
  check (b.readerIndex ≤ start) .peek
  check (start ≤ b.writerIndex) .beginWrite
  return b.memchrEOL start

/-! ## The two ends of a line -/

/-- What ends a line. -/
inductive Terminator
  | crlf
  | eol
  deriving DecidableEq

def Terminator.bytes : Terminator → List Byte
  | .crlf => kCRLF
  | .eol => [10]

/-- The search from `peek()` on. -/
def find (b : Buffer) : Terminator → Option Nat
  | .crlf => b.findCRLF
  | .eol => b.findEOL

/-- The search from a position on. -/
def findFrom (b : Buffer) (start : Nat) : Terminator → Except SearchAssertion (Option Nat)
  | .crlf => b.findCRLFFrom start
  | .eol => b.findEOLFrom start

variable {b : Buffer} {t : Terminator}

theorem Terminator.bytes_ne_nil (t : Terminator) : t.bytes ≠ [] := by
  cases t with
  | crlf => exact List.cons_ne_nil _ _
  | eol => exact List.cons_ne_nil _ _

/-- What is found lies before `beginWrite()`, so `std::search` tells whether it has found it. -/
theorem searchCRLF_eq (h : b.WF) {start : Nat} (hstart : start ≤ b.writerIndex) :
    (if b.searchCRLF start = b.writerIndex then none else some (b.searchCRLF start)) =
      (firstMatch kCRLF (segment b.buffer start b.writerIndex)).map (start + ·) := by
  unfold searchCRLF
  cases hi : firstMatch kCRLF (segment b.buffer start b.writerIndex) with
  | none => exact if_pos rfl
  | some i =>
      have hle := firstMatch_le hi (List.cons_ne_nil _ _)
      rw [length_segment _ _ _ h.writer_le] at hle
      have hlen : kCRLF.length = 2 := rfl
      exact if_neg (by simp only; omega)

/-- The search from a position on fails for none of the readable bytes. -/
theorem findFrom_eq (h : b.WF) {start : Nat} (hpeek : b.readerIndex ≤ start)
    (hwrite : start ≤ b.writerIndex) :
    b.findFrom start t =
      .ok ((firstMatch t.bytes (segment b.buffer start b.writerIndex)).map (start + ·)) := by
  cases t with
  | crlf =>
      rw [findFrom, findCRLFFrom, check_bind hpeek, check_bind hwrite, searchCRLF_eq h hwrite]
      rfl
  | eol =>
      rw [findFrom, findEOLFrom, check_bind hpeek, check_bind hwrite]
      rfl

theorem find_eq (h : b.WF) :
    b.find t = (firstMatch t.bytes b.readable).map (b.readerIndex + ·) := by
  cases t with
  | crlf => exact searchCRLF_eq h h.reader_le
  | eol => rfl

/-- The bytes from a position on. -/
theorem findFrom_readable (h : b.WF) {n : Nat} (hn : n ≤ b.readable.length) :
    b.findFrom (b.readerIndex + n) t =
      .ok ((firstMatch t.bytes (b.readable.drop n)).map (b.readerIndex + n + ·)) := by
  have hr := h.reader_le
  rw [length_readable h, readableBytes] at hn
  rw [findFrom_eq h (Nat.le_add_right _ _) (by omega), readable, drop_segment]

/-! ## A reader of lines -/

/-- A buffer whose lines are taken, how many of its readable bytes a search in vain has left
behind, and what has been appended and taken. -/
structure LineReader where
  buffer : Buffer
  scanned : Nat
  received : List Byte
  lines : List (List Byte)

namespace LineReader

inductive Fault
  | buffer (e : Assertion)
  | search (e : SearchAssertion)
  deriving DecidableEq, Repr

/-- Bytes arrive, or the next line is taken: with a search from `peek()` on, or with one that is
resumed. -/
inductive Action
  | append (data : List Byte)
  | take (resumed : Bool)

variable (t : Terminator)

def found (s : LineReader) (resumed : Bool) : Except Fault (Option Nat) :=
  if resumed = true then
    nested .search (s.buffer.findFrom (s.buffer.readerIndex + s.scanned) t)
  else .ok (s.buffer.find t)

/-- Take the line that ends at `stop`. -/
def takeLine (s : LineReader) (stop : Nat) : Except Fault LineReader := do
  let (line, buffer) ← nested .buffer
    (s.buffer.retrieveAsString (stop - s.buffer.readerIndex))
  let buffer ← nested .buffer (buffer.retrieve t.bytes.length)
  return { s with buffer := buffer, scanned := 0, lines := s.lines ++ [line] }

def take (s : LineReader) (resumed : Bool) : Except Fault LineReader := do
  match ← s.found t resumed with
  | some stop => s.takeLine t stop
  | none => return { s with scanned := s.buffer.readableBytes + 1 - t.bytes.length }

def step (s : LineReader) : Action → Except Fault LineReader
  | .append data => do
      let buffer ← nested .buffer (s.buffer.append data)
      return { s with buffer := buffer, received := s.received ++ data }
  | .take resumed => s.take t resumed

def runs : System LineReader Action Fault where
  init s := ∃ initialSize, s = ⟨Buffer.new initialSize, 0, [], []⟩
  step s a := some (s.step t a)

/-- The lines and the readable bytes are the stream, and no line ends in what a search in vain
has left behind. -/
structure Inv (s : LineReader) : Prop where
  wf : s.buffer.WF
  frames : Frames t.bytes s.received s.lines s.buffer.readable
  scanned_le : s.scanned ≤ s.buffer.readable.length + 1 - t.bytes.length
  unfound : ∀ j < s.scanned, ¬ t.bytes <+: s.buffer.readable.drop j

variable {t} {s s' : LineReader} {a : Action}

theorem inv_start (initialSize : Nat) : Inv t ⟨Buffer.new initialSize, 0, [], []⟩ where
  wf := new_wf initialSize
  frames := by
    rw [new_readable]
    exact frames_nil t.bytes
  scanned_le := Nat.zero_le _
  unfound := fun j hj => absurd hj (Nat.not_lt_zero j)

theorem Inv.append (h : Inv t s) (data : List Byte) :
    ∃ s', s.step t (.append data) = .ok s' ∧ Inv t s' := by
  obtain ⟨buffer, hok, hwf, hread, -⟩ := append_spec h.wf data
  have hle := h.scanned_le
  refine ⟨⟨buffer, s.scanned, s.received ++ data, s.lines⟩, ?_, hwf, ?_, ?_, ?_⟩
  · rw [step, hok]
    rfl
  · rw [hread]
    exact h.frames.append data
  · show s.scanned ≤ buffer.readable.length + 1 - t.bytes.length
    rw [hread, List.length_append]
    omega
  · intro j hj hat
    have hj : j < s.scanned := hj
    rw [hread] at hat
    exact h.unfound j hj ((prefix_drop_append (by omega)).mp hat)

/-- Both searches find the first end of a line. -/
theorem Inv.found (h : Inv t s) (resumed : Bool) :
    s.found t resumed =
      .ok ((firstMatch t.bytes s.buffer.readable).map (s.buffer.readerIndex + ·)) := by
  unfold LineReader.found
  have hpos := List.length_pos_iff.mpr t.bytes_ne_nil
  have hle := h.scanned_le
  by_cases hres : resumed = true
  · rw [if_pos hres, findFrom_readable h.wf (by omega), nested_ok, firstMatch_skip h.unfound,
      Option.map_map]
    congr 2
    funext i
    exact Nat.add_assoc _ _ _
  · rw [if_neg hres, find_eq h.wf]

/-- A line that has been found is taken, and its end with it. -/
theorem Inv.takeLine (h : Inv t s) {i : Nat} (hi : firstMatch t.bytes s.buffer.readable = some i) :
    ∃ s', s.takeLine t (s.buffer.readerIndex + i) = .ok s' ∧ Inv t s' := by
  have hle := firstMatch_le hi t.bytes_ne_nil
  rw [length_readable h.wf] at hle
  have hline : i ≤ s.buffer.readableBytes := by omega
  obtain ⟨b₁, hb₁, hwf₁, hread₁, -⟩ := retrieveAsString_spec h.wf hline
  have hsize₁ : b₁.readableBytes = s.buffer.readableBytes - i := by
    rw [← length_readable hwf₁, hread₁, List.length_drop, length_readable h.wf]
  have hend : t.bytes.length ≤ b₁.readableBytes := by omega
  obtain ⟨b₂, hb₂, hwf₂, hread₂, -⟩ := retrieve_spec hwf₁ hend
  refine ⟨⟨b₂, 0, s.received, s.lines ++ [s.buffer.readable.take i]⟩, ?_, hwf₂, ?_,
    Nat.zero_le _, fun j hj => absurd hj (Nat.not_lt_zero j)⟩
  · rw [LineReader.takeLine, Nat.add_sub_cancel_left, hb₁]
    show (nested Fault.buffer (b₁.retrieve t.bytes.length) >>= _) = _
    rw [hb₂]
    rfl
  · rw [hread₂, hread₁, List.drop_drop]
    exact h.frames.next t.bytes_ne_nil hi

theorem Inv.take (h : Inv t s) (resumed : Bool) :
    ∃ s', s.step t (.take resumed) = .ok s' ∧ Inv t s' := by
  rw [step, LineReader.take, h.found resumed, ok_bind]
  cases hi : firstMatch t.bytes s.buffer.readable with
  | some i => exact h.takeLine hi
  | none =>
      refine ⟨_, rfl, h.wf, h.frames, ?_, ?_⟩
      · rw [length_readable h.wf]
      · intro j _
        exact firstMatch_eq_none.mp hi j

theorem Inv.step (h : Inv t s) (a : Action) : ∃ s', s.step t a = .ok s' ∧ Inv t s' := by
  cases a with
  | append data => exact h.append data
  | take resumed => exact h.take resumed

/-- In every run, however the stream is cut into portions and whichever of the searches are
resumed:

* the lines that have been taken are lines of the stream, and what is readable is its rest;
* both searches find the same, so it does not matter which of them are resumed;
* where they find nothing, the lines are all lines of the stream;
* no assertion fails. -/
theorem lines_framed (t : Terminator) (s : LineReader)
    (h : (runs t).Reachable System.always s) :
    Frames t.bytes s.received s.lines s.buffer.readable ∧
    s.buffer.findFrom (s.buffer.readerIndex + s.scanned) t = .ok (s.buffer.find t) ∧
    (s.buffer.find t = none → ∀ lines rest, Frames t.bytes s.received lines rest →
      firstMatch t.bytes rest = none → lines = s.lines ∧ rest = s.buffer.readable) ∧
    ∀ a e, ¬ (runs t).Fails s a e := by
  have hinv : Inv t s := by
    apply h.invariant
    · rintro s ⟨initialSize, rfl⟩
      exact inv_start initialSize
    · intro s a s' hs _ hn
      obtain ⟨u, hok, hu⟩ := hs.step a
      have hn : some (s.step t a) = some (.ok s') := hn
      rw [hok] at hn
      cases hn
      exact hu
  refine ⟨hinv.frames, ?_, ?_, ?_⟩
  · have hres := hinv.found true
    rw [LineReader.found, if_pos rfl, nested_eq_ok] at hres
    rw [hres, find_eq hinv.wf]
  · intro hnone lines rest hframes hrest
    rw [find_eq hinv.wf, Option.map_eq_none_iff] at hnone
    exact hframes.unique hinv.frames t.bytes_ne_nil hrest hnone
  · intro a e hf
    obtain ⟨u, hok, -⟩ := hinv.step a
    have hf : some (s.step t a) = some (.error e) := hf
    rw [hok] at hf
    cases hf

/-- Two lines in three portions, with a CR at the end of the first portion. -/
def sampleActions : List Action :=
  [.append [97, 13], .take false, .append [10, 98], .take true, .append [13, 10], .take false]

theorem lines_framed_sample : ∃ s : LineReader, (runs .crlf).Reachable System.always s ∧
    s.lines = [[97], [98]] ∧ Frames kCRLF s.received s.lines s.buffer.readable := by
  have hinit : (runs .crlf).init ⟨Buffer.new 4, 0, [], []⟩ := ⟨4, rfl⟩
  have hrun : (runs .crlf).Run System.always ⟨Buffer.new 4, 0, [], []⟩ sampleActions _ :=
    System.run_of_exec rfl
  have hreach : (runs .crlf).Reachable System.always _ := ⟨_, _, hinit, hrun⟩
  exact ⟨_, hreach, rfl, (lines_framed .crlf _ hreach).1⟩

end LineReader

end Buffer

end Zing.Net
