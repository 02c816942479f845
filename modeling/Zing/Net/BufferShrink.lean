import Zing.Base.StringPiece
import Zing.Net.Buffer

set_option autoImplicit false

/-! # `Buffer::shrink`

`shrink` copies the readable bytes into a new buffer that was given room for them and for
`reserve` more. The bytes travel as a `StringPiece`, whose length is an `int`, and the room is
computed as a sum of two `size_t`. Here the functions that it runs through are taken with the
arithmetic of `size_t`, which wraps around, and with the limit of `std::vector`; there is enough
memory up to that limit. `shrink_keeps_iff` says for which contents and which `reserve` nothing
is lost on the way.
-/

namespace Zing.Net

open Zing.Lib
open Zing.Base (StringPiece maxSize)

/-- The value of an expression of type `size_t`. -/
def size_t (n : Nat) : Nat := n % 2 ^ 64

theorem size_t_eq {n : Nat} (h : n < 2 ^ 64) : size_t n = n := Nat.mod_eq_of_lt h

theorem size_t_lt (n : Nat) : size_t n < 2 ^ 64 := Nat.mod_lt n (by positivity)

namespace Buffer

/-- What can go wrong: an assertion of `Buffer.h`, the exception that a vector throws, or a
read behind the end of a vector. -/
inductive ShrinkFault
  | assertion (a : Assertion)
  | lengthError
  | outOfRange
  deriving DecidableEq, Repr

namespace SizeT

/-! ## The functions -/

def readableBytes (b : Buffer) : Nat := size_t (b.writerIndex + 2 ^ 64 - b.readerIndex)

def writableBytes (b : Buffer) : Nat := size_t (b.buffer.length + 2 ^ 64 - b.writerIndex)

def makeSpace (b : Buffer) (len : Nat) : Except ShrinkFault Buffer :=
  if size_t (writableBytes b + b.prependableBytes) < size_t (len + kCheapPrepend) then do
    check (size_t (b.writerIndex + len) ≤ maxSize) .lengthError
    return { b with buffer := resize b.buffer (size_t (b.writerIndex + len)) 0 }
  else do
    check (kCheapPrepend < b.readerIndex) (.assertion .makeSpaceReader)
    let readable := readableBytes b
    let b' : Buffer :=
      { buffer := overwrite b.buffer kCheapPrepend b.readable
        readerIndex := kCheapPrepend
        writerIndex := size_t (kCheapPrepend + readable) }
    check (readable = readableBytes b') (.assertion .makeSpaceReadable)
    return b'

def ensureWritableBytes (b : Buffer) (len : Nat) : Except ShrinkFault Buffer := do
  let b ← if writableBytes b < len then makeSpace b len else pure b
  check (len ≤ writableBytes b) (.assertion .ensureWritableBytes)
  return b

def hasWritten (b : Buffer) (len : Nat) : Except ShrinkFault Buffer := do
  check (len ≤ writableBytes b) (.assertion .hasWritten)
  return { b with writerIndex := size_t (b.writerIndex + len) }

/-- `data` is the memory that the pointer points to. -/
def append (b : Buffer) (data : List Byte) (len : Nat) : Except ShrinkFault Buffer := do
  let b ← ensureWritableBytes b len
  check (len ≤ data.length) .outOfRange
  hasWritten (b.copyToWrite (data.take len)) len

end SizeT

def toStringPiece (b : Buffer) : StringPiece where
  ptr := b.buffer.drop b.readerIndex
  length := narrow 32 (SizeT.readableBytes b)

def shrink (b : Buffer) (reserve : Nat) : Except ShrinkFault Buffer := do
  let other ← SizeT.ensureWritableBytes Buffer.new (size_t (SizeT.readableBytes b + reserve))
  let other ← SizeT.append other b.toStringPiece.ptr b.toStringPiece.sizeT
  return (swap b other).1

/-! ## Where nothing wraps around -/

variable {b : Buffer} {len : Nat}

theorem readableBytes_sizeT (h : b.WF) (hmax : b.buffer.length ≤ maxSize) :
    SizeT.readableBytes b = b.readableBytes := by
  have hr := h.reader_le
  have hw := h.writer_le
  rw [maxSize] at hmax
  have hsum : b.writerIndex + 2 ^ 64 - b.readerIndex
      = b.writerIndex - b.readerIndex + 2 ^ 64 := by omega
  rw [SizeT.readableBytes, readableBytes, size_t, hsum, Nat.add_mod_right]
  exact Nat.mod_eq_of_lt (by omega)

theorem writableBytes_sizeT (hw : b.writerIndex ≤ b.buffer.length)
    (hmax : b.buffer.length ≤ maxSize) : SizeT.writableBytes b = b.writableBytes := by
  rw [maxSize] at hmax
  have hsum : b.buffer.length + 2 ^ 64 - b.writerIndex
      = b.buffer.length - b.writerIndex + 2 ^ 64 := by omega
  rw [SizeT.writableBytes, writableBytes, size_t, hsum, Nat.add_mod_right]
  exact Nat.mod_eq_of_lt (by omega)

/-! ## A buffer that nothing was put into yet -/

/-- Both indices are where the constructor puts them. -/
structure Fresh (b : Buffer) : Prop where
  reader_eq : b.readerIndex = kCheapPrepend
  writer_eq : b.writerIndex = kCheapPrepend
  le_length : kCheapPrepend ≤ b.buffer.length
  length_le : b.buffer.length ≤ maxSize

theorem Fresh.wf (h : b.Fresh) : b.WF :=
  ⟨by rw [h.reader_eq, h.writer_eq], by rw [h.writer_eq]; exact h.le_length, h.le_length⟩

theorem Fresh.writableBytes_eq (h : b.Fresh) :
    SizeT.writableBytes b = b.writableBytes ∧ b.writableBytes + 8 = b.buffer.length := by
  have hle := h.le_length
  refine ⟨writableBytes_sizeT h.wf.writer_le h.length_le, ?_⟩
  rw [writableBytes, h.writer_eq]
  simp only [kCheapPrepend] at hle ⊢
  omega

theorem fresh_new : Fresh (new kInitialSize) := by
  have hlen : (new kInitialSize).buffer.length = 1032 := List.length_replicate
  refine ⟨rfl, rfl, ?_, ?_⟩
  · rw [hlen, kCheapPrepend]
    omega
  · rw [hlen, maxSize]
    omega

theorem Fresh.makeSpace_eq (h : b.Fresh) (hlt : b.writableBytes < len)
    (hlen : len + kCheapPrepend ≤ maxSize) :
    SizeT.makeSpace b len
      = .ok { b with buffer := resize b.buffer (kCheapPrepend + len) 0 } := by
  obtain ⟨hsize, hroom⟩ := h.writableBytes_eq
  have hmax := h.length_le
  simp only [maxSize, kCheapPrepend] at hmax hlen
  have hleft : size_t (SizeT.writableBytes b + b.prependableBytes) = b.buffer.length := by
    rw [hsize, prependableBytes, h.reader_eq, kCheapPrepend, hroom]
    exact size_t_eq (by omega)
  have hright : size_t (len + kCheapPrepend) = len + 8 := size_t_eq (by rw [kCheapPrepend]; omega)
  have hnew : size_t (b.writerIndex + len) = kCheapPrepend + len := by
    rw [h.writer_eq]
    exact size_t_eq (by rw [kCheapPrepend]; omega)
  have hle : kCheapPrepend + len ≤ maxSize := by
    rw [kCheapPrepend, maxSize]
    omega
  rw [SizeT.makeSpace, hleft, hright, if_pos (by omega), hnew, check_bind hle]
  rfl

/-- Beyond the limit of the vector there is an exception; so large a number that the sum wraps
around leads into the other branch, where there is nothing to move. -/
theorem Fresh.makeSpace_error (h : b.Fresh) (hlen : len < 2 ^ 64)
    (hmax : maxSize < len + kCheapPrepend) : ∃ e, SizeT.makeSpace b len = .error e := by
  obtain ⟨hsize, hroom⟩ := h.writableBytes_eq
  have hle := h.length_le
  simp only [maxSize, kCheapPrepend] at hmax hle
  have hleft : size_t (SizeT.writableBytes b + b.prependableBytes) = b.buffer.length := by
    rw [hsize, prependableBytes, h.reader_eq, kCheapPrepend, hroom]
    exact size_t_eq (by omega)
  rw [SizeT.makeSpace, hleft]
  by_cases hwrap : len + 8 < 2 ^ 64
  · have hright : size_t (len + kCheapPrepend) = len + 8 := size_t_eq hwrap
    have hnew : size_t (b.writerIndex + len) = len + 8 := by
      rw [h.writer_eq, Nat.add_comm]
      exact hright
    have hgt : ¬ len + 8 ≤ maxSize := by
      rw [maxSize]
      omega
    rw [hright, if_pos (by omega), hnew, check_error hgt]
    exact ⟨.lengthError, rfl⟩
  · have hright : size_t (len + kCheapPrepend) < 8 := by
      rw [size_t, kCheapPrepend]
      omega
    have hreader : ¬ kCheapPrepend < b.readerIndex := by
      rw [h.reader_eq]
      exact lt_irrefl _
    rw [if_neg (by omega), check_error hreader]
    exact ⟨.assertion .makeSpaceReader, rfl⟩

/-- There is room for `len` bytes up to the limit of the vector, and no more. -/
theorem Fresh.ensure_spec (h : b.Fresh) (hlen : len + kCheapPrepend ≤ maxSize) :
    ∃ b', SizeT.ensureWritableBytes b len = .ok b' ∧ b'.Fresh ∧
      b'.buffer.length = max b.buffer.length (kCheapPrepend + len) := by
  obtain ⟨hsize, hroom⟩ := h.writableBytes_eq
  rw [SizeT.ensureWritableBytes, hsize]
  by_cases hlt : b.writableBytes < len
  · rw [if_pos hlt, h.makeSpace_eq hlt hlen, ok_bind]
    let b' : Buffer := { b with buffer := resize b.buffer (kCheapPrepend + len) 0 }
    have hlength : b'.buffer.length = kCheapPrepend + len := length_resize _ _ _
    have hb' : b'.Fresh := by
      refine ⟨h.reader_eq, h.writer_eq, ?_, ?_⟩
      · rw [hlength]
        exact Nat.le_add_right _ _
      · rw [hlength, Nat.add_comm]
        exact hlen
    obtain ⟨hsize', hroom'⟩ := hb'.writableBytes_eq
    rw [hlength, kCheapPrepend] at hroom'
    refine ⟨b', ?_, hb', ?_⟩
    · show (do check (len ≤ SizeT.writableBytes b') _; return b') = _
      rw [hsize', check_bind (by omega)]
      rfl
    · rw [hlength, kCheapPrepend]
      omega
  · rw [if_neg hlt]
    simp only [pure_eq_ok, ok_bind]
    rw [hsize, check_bind (Nat.le_of_not_lt hlt)]
    refine ⟨b, rfl, h, ?_⟩
    rw [kCheapPrepend]
    omega

theorem Fresh.ensure_error (h : b.Fresh) (hlen : len < 2 ^ 64)
    (hmax : maxSize < len + kCheapPrepend) :
    ∃ e, SizeT.ensureWritableBytes b len = .error e := by
  obtain ⟨hsize, hroom⟩ := h.writableBytes_eq
  have hle := h.length_le
  obtain ⟨e, he⟩ := h.makeSpace_error hlen hmax
  rw [kCheapPrepend] at hmax
  rw [SizeT.ensureWritableBytes, hsize, if_pos (by omega), he]
  exact ⟨e, rfl⟩

/-! ## Appending to it -/

theorem Fresh.append_spec (h : b.Fresh) {data : List Byte} (hlen : len + kCheapPrepend ≤ maxSize)
    (hdata : len ≤ data.length) : ∃ b', SizeT.append b data len = .ok b' ∧ b'.WF ∧
      b'.readable = data.take len ∧ b'.readerIndex = kCheapPrepend ∧
      b'.buffer.length = max b.buffer.length (kCheapPrepend + len) := by
  obtain ⟨b₁, hb₁, hfresh, hlength⟩ := h.ensure_spec hlen
  obtain ⟨hsize, hroom⟩ := hfresh.writableBytes_eq
  have hmax := hfresh.length_le
  have htake : (data.take len).length = len := List.length_take_of_le hdata
  rw [kCheapPrepend] at hlength
  have hfits : (data.take len).length ≤ b₁.writableBytes := by omega
  obtain ⟨hsame, hwf, hread⟩ := copyToWrite_commit hfresh.wf hfits
  rw [htake] at hwf hread
  have hnil : b₁.readable = [] := by
    rw [readable, hfresh.reader_eq, hfresh.writer_eq]
    exact segment_self _ _
  rw [hnil, List.nil_append] at hread
  have hwritable : SizeT.writableBytes (b₁.copyToWrite (data.take len)) = b₁.writableBytes := by
    rw [← hsize, SizeT.writableBytes, SizeT.writableBytes, hsame]
    rfl
  have hwriter : size_t (b₁.writerIndex + len) = b₁.writerIndex + len := by
    apply size_t_eq
    rw [hfresh.writer_eq]
    simp only [kCheapPrepend, maxSize] at hlen ⊢
    omega
  refine ⟨_, ?_, hwf, hread, hfresh.reader_eq, ?_⟩
  · rw [SizeT.append, hb₁, ok_bind, check_bind hdata, SizeT.hasWritten, hwritable,
      check_bind (by omega)]
    show Except.ok { b₁.copyToWrite (data.take len) with
      writerIndex := size_t (b₁.writerIndex + len) } = _
    rw [hwriter]
  · show (b₁.copyToWrite (data.take len)).buffer.length = _
    rw [hsame, hlength, kCheapPrepend]

theorem Fresh.append_error (h : b.Fresh) (data : List Byte) (hlen : len < 2 ^ 64)
    (hmax : maxSize < len + kCheapPrepend) : ∃ e, SizeT.append b data len = .error e := by
  obtain ⟨e, he⟩ := h.ensure_error hlen hmax
  rw [SizeT.append, he]
  exact ⟨e, rfl⟩

/-! ## Shrinking -/

/-- What `shrink` is to do: the same bytes, with room in front of and behind them. -/
structure Shrunk (b b' : Buffer) (reserve : Nat) : Prop where
  readable : b'.readable = b.readable
  writable : reserve ≤ b'.writableBytes
  prependable : b'.prependableBytes = kCheapPrepend
  wf : b'.WF

/-- The bytes that the piece of a buffer is for, if it is not too long. -/
theorem toStringPiece_eq (h : b.WF) (hmax : b.buffer.length ≤ maxSize) :
    b.toStringPiece.sizeT = StringPiece.throughInt b.readableBytes ∧
      b.readableBytes ≤ b.toStringPiece.ptr.length ∧
      b.toStringPiece.ptr.take b.readableBytes = b.readable := by
  have hr := h.reader_le
  have hw := h.writer_le
  refine ⟨?_, ?_, ?_⟩
  · rw [StringPiece.sizeT, toStringPiece, readableBytes_sizeT h hmax, StringPiece.throughInt]
  · show b.readableBytes ≤ (b.buffer.drop b.readerIndex).length
    rw [List.length_drop, readableBytes]
    omega
  · show (b.buffer.drop b.readerIndex).take (b.writerIndex - b.readerIndex) = b.readable
    rw [readable, Lib.segment, List.drop_take]

/-- What comes out of `shrink` is what was appended to the new buffer. -/
theorem shrink_eq (reserve : Nat) : b.shrink reserve = (do
    let other ← SizeT.ensureWritableBytes (new kInitialSize)
      (size_t (SizeT.readableBytes b + reserve))
    SizeT.append other b.toStringPiece.ptr b.toStringPiece.sizeT) := by
  have hswap : ∀ x : Except ShrinkFault Buffer,
      (do let other ← x; return (swap b other).1) = x := by
    intro x
    cases x <;> rfl
  simp only [shrink, hswap]

theorem shrink_shrunk (h : b.WF) (hmax : b.buffer.length ≤ maxSize) {reserve : Nat}
    (hint : b.readableBytes < 2 ^ 31)
    (hroom : b.readableBytes + reserve + kCheapPrepend ≤ maxSize) :
    ∃ b', b.shrink reserve = .ok b' ∧ Shrunk b b' reserve := by
  obtain ⟨hsize, hptr, htake⟩ := toStringPiece_eq h hmax
  rw [StringPiece.throughInt_eq hint] at hsize
  have hsum : size_t (SizeT.readableBytes b + reserve) = b.readableBytes + reserve := by
    rw [readableBytes_sizeT h hmax]
    apply size_t_eq
    simp only [kCheapPrepend, maxSize] at hroom
    omega
  have hfits : b.readableBytes + kCheapPrepend ≤ maxSize := by omega
  obtain ⟨other, hother, hfresh, hlength⟩ := fresh_new.ensure_spec hroom
  obtain ⟨b', hb', hwf, hread, hreader, hlength'⟩ :=
    hfresh.append_spec hfits hptr
  have hwriter : b'.readableBytes = b.readableBytes := by
    rw [← length_readable hwf, hread, htake, length_readable h]
  refine ⟨b', ?_, hread.trans htake, ?_, hreader, hwf⟩
  · rw [shrink_eq, hsum, hother, ok_bind, hsize, hb']
  · have hle := hwf.reader_le
    rw [hlength, kCheapPrepend] at hlength'
    rw [readableBytes, hreader, kCheapPrepend] at hwriter
    rw [hreader, kCheapPrepend] at hle
    rw [writableBytes, hlength']
    omega

/-- From a length of `INT_MAX` on, and where the vector would be too long, something fails or
the bytes are not the same. -/
theorem lt_of_shrunk (h : b.WF) (hmax : b.buffer.length ≤ maxSize) {reserve : Nat}
    {b' : Buffer} (hok : b.shrink reserve = .ok b') (hs : Shrunk b b' reserve) :
    b.readableBytes < 2 ^ 31 ∧ b.readableBytes + reserve + kCheapPrepend ≤ maxSize := by
  obtain ⟨hsize, hptr, htake⟩ := toStringPiece_eq h hmax
  have hsize64 : b.toStringPiece.sizeT < 2 ^ 64 := toUnsigned_lt 64 _
  have hreadable : b'.readableBytes = b.readableBytes := by
    rw [← length_readable hs.wf, hs.readable, length_readable h]
  rw [shrink_eq] at hok
  obtain ⟨other, hother, happend⟩ := bind_eq_ok.mp hok
  -- neither of the two steps went beyond the limit of a vector
  have hfirst : size_t (SizeT.readableBytes b + reserve) + kCheapPrepend ≤ maxSize := by
    by_contra hgt
    obtain ⟨e, he⟩ := fresh_new.ensure_error (size_t_lt _) (Nat.lt_of_not_le hgt)
    rw [he] at hother
    cases hother
  obtain ⟨other', hother', hfresh, -⟩ := fresh_new.ensure_spec hfirst
  rw [hother] at hother'
  cases hother'
  have hsecond : b.toStringPiece.sizeT + kCheapPrepend ≤ maxSize := by
    by_contra hgt
    obtain ⟨e, he⟩ := hfresh.append_error b.toStringPiece.ptr hsize64 (Nat.lt_of_not_le hgt)
    rw [he] at happend
    cases happend
  have hcases := StringPiece.throughInt_of_long (n := b.readableBytes)
  rw [← hsize] at hcases
  have hle : b.toStringPiece.sizeT ≤ b.readableBytes := by
    rcases Nat.lt_or_ge b.readableBytes (2 ^ 31) with hlt | hge
    · rw [hsize, StringPiece.throughInt_eq hlt]
    · simp only [kCheapPrepend, maxSize] at hsecond
      have := hcases hge
      omega
  obtain ⟨b'', hb'', hwf, hread, hreader, hlength⟩ :=
    hfresh.append_spec hsecond (hle.trans hptr)
  rw [happend] at hb''
  cases hb''
  -- as many bytes are readable as were copied
  have hlen : b.toStringPiece.sizeT = b.readableBytes := by
    rw [← hreadable, ← length_readable hs.wf, hread, List.length_take,
      Nat.min_eq_left (hle.trans hptr)]
  constructor
  · by_contra hge
    have := hcases (Nat.le_of_not_lt hge)
    simp only [kCheapPrepend, maxSize] at hsecond
    omega
  · have hlimit := hfresh.length_le
    have hwriter := hwf.writer_le
    have hreader_le := hwf.reader_le
    have hroom := hs.writable
    rw [hreader] at hreader_le
    rw [readableBytes, hreader] at hreadable
    rw [writableBytes] at hroom
    omega

/-- `shrink` keeps what it promises exactly if the readable bytes are at most `INT_MAX`, and a
vector can have room for them and for `reserve` more. -/
theorem shrink_keeps_iff (b : Buffer) (h : b.WF) (hmax : b.buffer.length ≤ maxSize)
    (reserve : Nat) : (∃ b', b.shrink reserve = .ok b' ∧ Shrunk b b' reserve) ↔
      b.readableBytes < 2 ^ 31 ∧ b.readableBytes + reserve + kCheapPrepend ≤ maxSize := by
  constructor
  · rintro ⟨b', hok, hs⟩
    exact lt_of_shrunk h hmax hok hs
  · rintro ⟨hint, hroom⟩
    exact shrink_shrunk h hmax hint hroom

theorem shrink_keeps_sample : ∃ b',
    (⟨[0, 0, 0, 0, 0, 0, 0, 0, 0, 1, 2, 3], 9, 12⟩ : Buffer).shrink 5 = .ok b' ∧
      b'.readable = [1, 2, 3] ∧ 5 ≤ b'.writableBytes := by
  obtain ⟨b', hok, hs⟩ := (shrink_keeps_iff ⟨[0, 0, 0, 0, 0, 0, 0, 0, 0, 1, 2, 3], 9, 12⟩
    ⟨by decide, by decide, by decide⟩ (by decide) 5).mpr ⟨by decide, by decide⟩
  exact ⟨b', hok, hs.readable, hs.writable⟩

/-- A buffer of two gigabytes. -/
def twoGigabytes : Buffer where
  buffer := List.replicate (kCheapPrepend + 2 ^ 31) 0
  readerIndex := kCheapPrepend
  writerIndex := kCheapPrepend + 2 ^ 31

theorem twoGigabytes_wf : twoGigabytes.WF ∧ twoGigabytes.buffer.length ≤ maxSize ∧
    twoGigabytes.readableBytes = 2 ^ 31 := by
  have hlength : twoGigabytes.buffer.length = kCheapPrepend + 2 ^ 31 := List.length_replicate
  refine ⟨⟨Nat.le_add_right _ _, Nat.le_of_eq hlength.symm, ?_⟩, ?_, Nat.add_sub_cancel_left _ _⟩
  · rw [hlength]
    exact Nat.le_add_right _ _
  · rw [hlength, kCheapPrepend, maxSize]
    omega

theorem shrink_loses : ¬ ∀ (b : Buffer), b.WF → b.buffer.length ≤ maxSize → ∀ reserve,
    ∃ b', b.shrink reserve = .ok b' ∧ Shrunk b b' reserve := by
  intro hall
  obtain ⟨hwf, hmax, hreadable⟩ := twoGigabytes_wf
  obtain ⟨b', hok, hs⟩ := hall twoGigabytes hwf hmax 0
  have hlt := (lt_of_shrunk hwf hmax hok hs).1
  omega

end Buffer

end Zing.Net
