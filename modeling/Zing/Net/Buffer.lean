import Zing.Lib.Assert
import Zing.Lib.Segment

set_option autoImplicit false

/-! # `Buffer`

The input and output buffer of a connection: a vector of bytes with two indices.

    | prependable bytes |  readable bytes  |  writable bytes  |
    0       <=      readerIndex   <=   writerIndex    <=     size

The functions follow `Buffer.h` line by line, with the assertions of the source as failures.
Sizes are natural numbers: the buffers are small enough that no sum of sizes wraps around.
A pointer into the buffer is its distance from `begin()`.

The second half has one lemma for each function: on a well-formed buffer (`Buffer.WF`) what
it does to the readable bytes, and that none of its own assertions fails beyond the one the
caller has to meet.
-/

namespace Zing.Net

open Zing.Lib

/-- A `char` of the source. -/
abbrev Byte := UInt8

/-- `class Buffer`: the vector `buffer_` and the two indices. -/
structure Buffer where
  buffer : List Byte
  readerIndex : Nat
  writerIndex : Nat
  deriving DecidableEq, Repr

namespace Buffer

/-- The assertions of `Buffer.h`, each named by the function it stands in. -/
inductive Assertion
  | retrieve
  | retrieveUntilPeek
  | retrieveUntilBeginWrite
  | retrieveAsString
  | ensureWritableBytes
  | hasWritten
  | unwrite
  | prepend
  | makeSpaceReader
  | makeSpaceReadable
  deriving DecidableEq, Repr

def kCheapPrepend : Nat := 8
def kInitialSize : Nat := 1024

/-- `Buffer(size_t initialSize)` -/
def new (initialSize : Nat := kInitialSize) : Buffer where
  buffer := List.replicate (kCheapPrepend + initialSize) 0
  readerIndex := kCheapPrepend
  writerIndex := kCheapPrepend

/-- `a.swap(rhs)`: the new contents of `a` and of `rhs`. -/
def swap (a rhs : Buffer) : Buffer × Buffer :=
  ({ buffer := rhs.buffer, readerIndex := rhs.readerIndex, writerIndex := rhs.writerIndex },
   { buffer := a.buffer, readerIndex := a.readerIndex, writerIndex := a.writerIndex })

def readableBytes (b : Buffer) : Nat := b.writerIndex - b.readerIndex

def writableBytes (b : Buffer) : Nat := b.buffer.length - b.writerIndex

def prependableBytes (b : Buffer) : Nat := b.readerIndex

/-- The bytes from `peek()` to `beginWrite()`. -/
def readable (b : Buffer) : List Byte := segment b.buffer b.readerIndex b.writerIndex

def retrieveAll (b : Buffer) : Buffer :=
  { b with readerIndex := kCheapPrepend, writerIndex := kCheapPrepend }

def retrieve (b : Buffer) (len : Nat) : Except Assertion Buffer := do
  check (len ≤ b.readableBytes) .retrieve
  if len < b.readableBytes then
    return { b with readerIndex := b.readerIndex + len }
  else
    return b.retrieveAll

def retrieveUntil (b : Buffer) (stop : Nat) : Except Assertion Buffer := do
  check (b.readerIndex ≤ stop) .retrieveUntilPeek
  check (stop ≤ b.writerIndex) .retrieveUntilBeginWrite
  b.retrieve (stop - b.readerIndex)

/-- `retrieveAsString`: the string it returns and the buffer it leaves. -/
def retrieveAsString (b : Buffer) (len : Nat) : Except Assertion (List Byte × Buffer) := do
  check (len ≤ b.readableBytes) .retrieveAsString
  let result := segment b.buffer b.readerIndex (b.readerIndex + len)
  let b ← b.retrieve len
  return (result, b)

def retrieveAllAsString (b : Buffer) : Except Assertion (List Byte × Buffer) :=
  b.retrieveAsString b.readableBytes

def makeSpace (b : Buffer) (len : Nat) : Except Assertion Buffer :=
  if b.writableBytes + b.prependableBytes < len + kCheapPrepend then
    return { b with buffer := resize b.buffer (b.writerIndex + len) 0 }
  else do
    -- move readable data to the front, make space inside buffer
    check (kCheapPrepend < b.readerIndex) .makeSpaceReader
    let b' : Buffer :=
      { buffer := overwrite b.buffer kCheapPrepend b.readable
        readerIndex := kCheapPrepend
        writerIndex := kCheapPrepend + b.readableBytes }
    check (b.readableBytes = b'.readableBytes) .makeSpaceReadable
    return b'

def ensureWritableBytes (b : Buffer) (len : Nat) : Except Assertion Buffer := do
  let b ← if b.writableBytes < len then b.makeSpace len else pure b
  check (len ≤ b.writableBytes) .ensureWritableBytes
  return b

def hasWritten (b : Buffer) (len : Nat) : Except Assertion Buffer := do
  check (len ≤ b.writableBytes) .hasWritten
  return { b with writerIndex := b.writerIndex + len }

/-- Copy `data` to `beginWrite()`, as `append` and the users of `beginWrite` do. -/
def copyToWrite (b : Buffer) (data : List Byte) : Buffer :=
  { b with buffer := overwrite b.buffer b.writerIndex data }

def append (b : Buffer) (data : List Byte) : Except Assertion Buffer := do
  let b ← b.ensureWritableBytes data.length
  (b.copyToWrite data).hasWritten data.length

def unwrite (b : Buffer) (len : Nat) : Except Assertion Buffer := do
  check (len ≤ b.readableBytes) .unwrite
  return { b with writerIndex := b.writerIndex - len }

def prepend (b : Buffer) (data : List Byte) : Except Assertion Buffer := do
  check (data.length ≤ b.prependableBytes) .prepend
  return { b with
    buffer := overwrite b.buffer (b.readerIndex - data.length) data
    readerIndex := b.readerIndex - data.length }

/-! ## Well-formed buffers -/

/-- The representation invariant: the indices are in order and inside the vector, and the
vector is large enough for `retrieveAll` to put both indices at `kCheapPrepend`. -/
structure WF (b : Buffer) : Prop where
  reader_le : b.readerIndex ≤ b.writerIndex
  writer_le : b.writerIndex ≤ b.buffer.length
  cheap_le : kCheapPrepend ≤ b.buffer.length

/-- `b'` still has the cheap-prepend reserve if `b` has it. -/
def KeepsReserve (b b' : Buffer) : Prop :=
  kCheapPrepend ≤ b.prependableBytes → kCheapPrepend ≤ b'.prependableBytes

theorem length_readable {b : Buffer} (h : b.WF) : b.readable.length = b.readableBytes :=
  length_segment _ _ _ h.writer_le

theorem readable_eq_nil_iff {b : Buffer} (h : b.WF) : b.readable = [] ↔ b.readableBytes = 0 := by
  rw [← length_readable h, List.length_eq_zero_iff]

theorem new_wf (n : Nat) : (new n).WF := by
  constructor
  · exact Nat.le_refl _
  · simp [new]
  · simp [new]

theorem new_readable (n : Nat) : (new n).readable = [] := segment_self _ _

/-- The three assertions of the constructor. -/
theorem new_sizes (n : Nat) :
    (new n).readableBytes = 0 ∧ (new n).writableBytes = n
      ∧ (new n).prependableBytes = kCheapPrepend := by
  refine ⟨Nat.sub_self _, ?_, rfl⟩
  simp [writableBytes, new]

/-! ## Taking bytes out -/

theorem retrieveAll_wf {b : Buffer} (h : b.WF) : b.retrieveAll.WF :=
  ⟨Nat.le_refl _, h.cheap_le, h.cheap_le⟩

theorem retrieveAll_readable (b : Buffer) : b.retrieveAll.readable = [] := segment_self _ _

theorem retrieve_spec {b : Buffer} (h : b.WF) {len : Nat} (hlen : len ≤ b.readableBytes) :
    ∃ b', b.retrieve len = .ok b' ∧ b'.WF ∧ b'.readable = b.readable.drop len
      ∧ KeepsReserve b b' := by
  rw [retrieve, check_bind hlen]
  have hr := h.reader_le
  by_cases hlt : len < b.readableBytes
  · rw [if_pos hlt]
    refine ⟨_, rfl, ⟨?_, h.writer_le, h.cheap_le⟩, ?_, ?_⟩
    · simp only [readableBytes] at hlt ⊢; omega
    · rw [readable, readable, drop_segment]
    · intro hres; simp only [prependableBytes] at hres ⊢; omega
  · rw [if_neg hlt]
    refine ⟨_, rfl, retrieveAll_wf h, ?_, fun _ => Nat.le_refl _⟩
    rw [retrieveAll_readable, List.drop_of_length_le]
    rw [length_readable h]
    omega

theorem retrieveUntil_spec {b : Buffer} (h : b.WF) {stop : Nat} (h₁ : b.readerIndex ≤ stop)
    (h₂ : stop ≤ b.writerIndex) :
    ∃ b', b.retrieveUntil stop = .ok b' ∧ b'.WF
      ∧ b'.readable = b.readable.drop (stop - b.readerIndex) ∧ KeepsReserve b b' := by
  rw [retrieveUntil, check_bind h₁, check_bind h₂]
  exact retrieve_spec h (Nat.sub_le_sub_right h₂ _)

theorem retrieveAsString_spec {b : Buffer} (h : b.WF) {len : Nat}
    (hlen : len ≤ b.readableBytes) :
    ∃ b', b.retrieveAsString len = .ok (b.readable.take len, b') ∧ b'.WF
      ∧ b'.readable = b.readable.drop len ∧ KeepsReserve b b' := by
  obtain ⟨b', hb', hwf, hread, hres⟩ := retrieve_spec h hlen
  refine ⟨b', ?_, hwf, hread, hres⟩
  have hr := h.reader_le
  rw [retrieveAsString, check_bind hlen, hb', readable,
    take_segment _ _ _ _ (by simp only [readableBytes] at hlen; omega)]
  rfl

theorem unwrite_spec {b : Buffer} (h : b.WF) {len : Nat} (hlen : len ≤ b.readableBytes) :
    ∃ b', b.unwrite len = .ok b' ∧ b'.WF
      ∧ b'.readable = b.readable.take (b.readable.length - len) ∧ KeepsReserve b b' := by
  have hr := h.reader_le
  have hw := h.writer_le
  have hle : len ≤ b.writerIndex - b.readerIndex := hlen
  rw [unwrite, check_bind hlen]
  refine ⟨_, rfl, ⟨?_, ?_, h.cheap_le⟩, ?_, fun hres => hres⟩
  · show b.readerIndex ≤ b.writerIndex - len; omega
  · show b.writerIndex - len ≤ b.buffer.length; omega
  · rw [length_readable h, readableBytes, readable, readable, take_segment _ _ _ _ (by omega)]
    congr 1
    show b.writerIndex - len = _
    omega

/-! ## Making room -/

/-- `makeSpace` is called only when the writable bytes do not suffice; then the assertion in
its second branch follows from the branch condition. -/
theorem makeSpace_spec {b : Buffer} (h : b.WF) {len : Nat} (hlen : b.writableBytes < len) :
    ∃ b', b.makeSpace len = .ok b' ∧ b'.WF ∧ b'.readable = b.readable
      ∧ len ≤ b'.writableBytes ∧ KeepsReserve b b' := by
  have hr := h.reader_le
  have hw := h.writer_le
  have hc := h.cheap_le
  rw [makeSpace]
  by_cases hgrow : b.writableBytes + b.prependableBytes < len + kCheapPrepend
  · rw [if_pos hgrow]
    have hlong : b.buffer.length ≤ b.writerIndex + len := by
      simp only [writableBytes] at hlen; omega
    refine ⟨_, rfl, ⟨hr, ?_, ?_⟩, ?_, ?_, fun hres => hres⟩
    · simp only [length_resize]; omega
    · simp only [length_resize]; omega
    · exact segment_resize _ _ _ _ _ (Nat.le_add_right _ _) hw
    · simp only [writableBytes, length_resize]; omega
  · rw [if_neg hgrow]
    simp only [writableBytes, prependableBytes] at hgrow hlen
    have hreader : kCheapPrepend < b.readerIndex := by omega
    have hlr := length_readable h
    have hfits : kCheapPrepend + b.readable.length ≤ b.buffer.length := by
      simp only [readableBytes] at hlr; omega
    rw [check_bind hreader,
      check_bind (by simp only [readableBytes]; omega)]
    refine ⟨_, rfl, ⟨?_, ?_, ?_⟩, ?_, ?_, fun _ => Nat.le_refl _⟩
    · simp only; omega
    · simp only [length_overwrite _ _ _ hfits]; omega
    · simp only [length_overwrite _ _ _ hfits]; omega
    · show segment (overwrite b.buffer kCheapPrepend b.readable) kCheapPrepend
          (kCheapPrepend + b.readableBytes) = b.readable
      rw [← hlr]
      exact segment_overwrite_self _ _ _ hc
    · simp only [writableBytes, length_overwrite _ _ _ hfits, readableBytes]; omega

theorem ensureWritableBytes_spec {b : Buffer} (h : b.WF) (len : Nat) :
    ∃ b', b.ensureWritableBytes len = .ok b' ∧ b'.WF ∧ b'.readable = b.readable
      ∧ len ≤ b'.writableBytes ∧ KeepsReserve b b' := by
  rw [ensureWritableBytes]
  by_cases hlt : b.writableBytes < len
  · obtain ⟨b', hb', hwf, hread, hroom, hres⟩ := makeSpace_spec h hlt
    rw [if_pos hlt, hb']
    simp only [ok_bind]
    rw [check_bind hroom]
    exact ⟨b', rfl, hwf, hread, hroom, hres⟩
  · rw [if_neg hlt]
    simp only [pure_eq_ok, ok_bind]
    rw [check_bind (Nat.le_of_not_lt hlt)]
    exact ⟨b, rfl, h, rfl, Nat.le_of_not_lt hlt, fun hres => hres⟩

/-! ## Putting bytes in -/

/-- Writing at `beginWrite()` and committing the first `len` bytes written. -/
theorem copyToWrite_hasWritten_spec {b : Buffer} (h : b.WF) {data : List Byte}
    (hdata : data.length ≤ b.writableBytes) {len : Nat} (hlen : len ≤ data.length) :
    ∃ b', (b.copyToWrite data).hasWritten len = .ok b' ∧ b'.WF
      ∧ b'.readable = b.readable ++ data.take len ∧ KeepsReserve b b' := by
  have hr := h.reader_le
  have hw := h.writer_le
  have hc := h.cheap_le
  have hd : data.length ≤ b.buffer.length - b.writerIndex := hdata
  have hlo := length_overwrite b.buffer b.writerIndex data (by omega)
  rw [hasWritten, check_bind (by simp only [writableBytes, copyToWrite, hlo]; omega)]
  refine ⟨_, rfl, ⟨?_, ?_, ?_⟩, ?_, fun hres => hres⟩
  · show b.readerIndex ≤ b.writerIndex + len; omega
  · show b.writerIndex + len ≤ (overwrite b.buffer b.writerIndex data).length; omega
  · show kCheapPrepend ≤ (overwrite b.buffer b.writerIndex data).length; omega
  · show segment (overwrite b.buffer b.writerIndex data) b.readerIndex (b.writerIndex + len)
      = b.readable ++ data.take len
    rw [← segment_append _ hr (Nat.le_add_right _ _),
      segment_overwrite_before _ _ _ _ _ (Nat.le_refl _) hw,
      ← take_segment _ _ _ _ (Nat.add_le_add_left hlen _),
      segment_overwrite_self _ _ _ hw, readable]

/-- Bytes that there is room for, copied to `beginWrite()` and committed. -/
theorem copyToWrite_commit {b : Buffer} (h : b.WF) {data : List Byte}
    (hdata : data.length ≤ b.writableBytes) :
    (b.copyToWrite data).buffer.length = b.buffer.length ∧
      WF { b.copyToWrite data with writerIndex := b.writerIndex + data.length } ∧
      readable { b.copyToWrite data with writerIndex := b.writerIndex + data.length }
        = b.readable ++ data := by
  obtain ⟨b', hb', hwf, hread, -⟩ := copyToWrite_hasWritten_spec h hdata (Nat.le_refl _)
  have hle := h.writer_le
  have hlen : (b.copyToWrite data).buffer.length = b.buffer.length := by
    apply length_overwrite
    simp only [writableBytes] at hdata
    omega
  have hroom : data.length ≤ (b.copyToWrite data).writableBytes := by
    show data.length ≤ (b.copyToWrite data).buffer.length - b.writerIndex
    rw [hlen]
    exact hdata
  rw [hasWritten, check_bind hroom] at hb'
  cases hb'
  rw [List.take_length] at hread
  exact ⟨hlen, hwf, hread⟩

theorem append_spec {b : Buffer} (h : b.WF) (data : List Byte) :
    ∃ b', b.append data = .ok b' ∧ b'.WF ∧ b'.readable = b.readable ++ data
      ∧ KeepsReserve b b' := by
  obtain ⟨b₁, hb₁, hwf₁, hread₁, hroom, hres₁⟩ := ensureWritableBytes_spec h data.length
  obtain ⟨b₂, hb₂, hwf₂, hread₂, hres₂⟩ :=
    copyToWrite_hasWritten_spec hwf₁ hroom (Nat.le_refl _)
  rw [append, hb₁, ok_bind]
  refine ⟨b₂, hb₂, hwf₂, ?_, fun hres => hres₂ (hres₁ hres)⟩
  rw [hread₂, hread₁, List.take_length]

theorem prepend_spec {b : Buffer} (h : b.WF) {data : List Byte}
    (hdata : data.length ≤ b.prependableBytes) :
    ∃ b', b.prepend data = .ok b' ∧ b'.WF ∧ b'.readable = data ++ b.readable := by
  have hr := h.reader_le
  have hw := h.writer_le
  have hc := h.cheap_le
  have hd : data.length ≤ b.readerIndex := hdata
  have hlo := length_overwrite b.buffer (b.readerIndex - data.length) data (by omega)
  have hend : b.readerIndex - data.length + data.length = b.readerIndex := by omega
  rw [prepend, check_bind hdata]
  refine ⟨_, rfl, ⟨?_, ?_, ?_⟩, ?_⟩
  · show b.readerIndex - data.length ≤ b.writerIndex; omega
  · show b.writerIndex ≤ (overwrite b.buffer (b.readerIndex - data.length) data).length; omega
  · show kCheapPrepend ≤ (overwrite b.buffer (b.readerIndex - data.length) data).length; omega
  · show segment (overwrite b.buffer (b.readerIndex - data.length) data)
      (b.readerIndex - data.length) b.writerIndex = data ++ b.readable
    have hself : segment (overwrite b.buffer (b.readerIndex - data.length) data)
        (b.readerIndex - data.length) b.readerIndex = data := by
      have hs := segment_overwrite_self b.buffer (b.readerIndex - data.length) data (by omega)
      rwa [hend] at hs
    rw [← segment_append _ (Nat.sub_le _ _) hr, hself,
      segment_overwrite_after _ _ _ _ _ (Nat.le_of_eq hend) (by omega), readable]

end Buffer

end Zing.Net
