import Mathlib.Tactic.Linarith
import Zing.Base.Convert
import Zing.Base.StringPiece
import Zing.Lib.System

set_option autoImplicit false

/-! # `FixedBuffer` and `LogStream`

A stream of text into a buffer of fixed size. A piece for which there is not enough room is
dropped. Strings are admitted when the free bytes are more than their length; numbers are
written in place before their length is known, and are admitted when `kMaxNumericSize` bytes
are free.

The buffer is a block of memory with the position of `cur_`; every access is checked, and so is
that `cur_` stays in the block. `logStream_content` says for any sequence of calls that no check
fails, and what the buffer holds. The text of a double is taken from `snprintf`.
-/

namespace Zing.Base

open Lib

namespace Detail

def kSmallBuffer : Nat := 4000

/-- `class FixedBuffer`: the block `data_`, and where `cur_` points in it. -/
structure FixedBuffer (SIZE : Nat) where
  data : Memory UInt8 SIZE
  cur : Nat
  cur_le : cur ≤ SIZE

namespace FixedBuffer

variable {SIZE : Nat}

def length (b : FixedBuffer SIZE) : Int := narrow 32 b.cur

def avail (b : FixedBuffer SIZE) : Int := narrow 32 ((SIZE : Int) - b.cur)

def add (b : FixedBuffer SIZE) (len : Nat) : Except OutOfBounds (FixedBuffer SIZE) :=
  if h : b.cur + len ≤ SIZE then .ok { b with cur := b.cur + len, cur_le := h }
  else .error .pointer

def append (b : FixedBuffer SIZE) (buf : List UInt8) (len : Nat) :
    Except OutOfBounds (FixedBuffer SIZE) :=
  if toUnsigned 64 b.avail > len then do
    let bytes ← Memory.read buf len
    let data ← b.data.write b.cur bytes
    { b with data := data }.add len
  else return b

def reset (b : FixedBuffer SIZE) : FixedBuffer SIZE :=
  { b with cur := 0, cur_le := Nat.zero_le SIZE }

/-- `debugString`: the block with its terminator. -/
def debugString (b : FixedBuffer SIZE) : Except OutOfBounds (FixedBuffer SIZE) := do
  let data ← b.data.write b.cur [0]
  return { b with data := data }

def toStringPiece (b : FixedBuffer SIZE) : StringPiece := ⟨b.data.cells, b.length⟩

/-- The bytes before `cur_`. -/
def content (b : FixedBuffer SIZE) : List UInt8 := b.data.cells.take b.cur

end FixedBuffer

/-- `snprintf(buf, size, ...)`, where `chars` is the text in full length: what does not fit is
cut off, and the full length is returned. -/
def snprintf {n : Nat} (m : Memory UInt8 n) (buf size : Nat) (chars : List UInt8) :
    Except OutOfBounds (Memory UInt8 n × Nat) := do
  let m ← m.write buf (chars.take (size - 1) ++ [0])
  return (m, chars.length)

end Detail

open Detail

/-! ## Operands -/

/-- A string with a terminator. -/
structure CString where
  chars : List UInt8
  no_zero : 0 ∉ chars

/-- `class Fmt`; the constructor asserts that the text was not cut off. -/
structure Fmt where
  buf : Memory UInt8 32
  length : Nat
  length_lt : length < 32

/-- What is not in the source about doubles: the value of a float as a double, and the text of a
double in the format `%.12g`. -/
structure Doubles where
  ofFloat : UInt32 → UInt64
  g12 : UInt64 → List UInt8

/-- The overloads of `operator<<` with their operands, and `append`. -/
inductive Piece
  | bool (v : Bool)
  | short (v : Int16)
  | unsignedShort (v : UInt16)
  | int (v : Int32)
  | unsignedInt (v : UInt32)
  | long (v : Int64)
  | unsignedLong (v : UInt64)
  | longLong (v : Int64)
  | unsignedLongLong (v : UInt64)
  | pointer (p : UInt64)
  | float (v : UInt32)
  | double (v : UInt64)
  | char (v : UInt8)
  | chars (str : Option CString)
  | unsignedChars (str : Option CString)
  | string (v : List UInt8)
  | stringPiece (v : { v : StringPiece // v.Readable })
  | buffer (v : FixedBuffer kSmallBuffer)
  | append (v : { v : StringPiece // v.Readable })
  | fmt (v : Fmt)

namespace Fmt

/-- What the constructor of `Fmt` fails with. -/
inductive Fault
  | outOfBounds (e : OutOfBounds)
  | length
  deriving DecidableEq, Repr

/-- `Fmt(fmt, val)`, where `chars` is the text of `val` in the format. -/
def ofFormat (buf : Memory UInt8 32) (chars : List UInt8) : Except Fault Fmt := do
  let (buf, length) ← nested .outOfBounds (snprintf buf 0 32 chars)
  if h : length < 32 then return ⟨buf, length, h⟩ else .error .length

end Fmt

/-! ## `LogStream` -/

structure LogStream where
  buffer : FixedBuffer kSmallBuffer

namespace LogStream

def kMaxNumericSize : Nat := 48

/-- The constructor, which leaves the bytes of the buffer as they are. -/
def new (data : Memory UInt8 kSmallBuffer) : LogStream := ⟨⟨data, 0, Nat.zero_le _⟩⟩

def formatInteger (s : LogStream) (v : Int) : Except OutOfBounds LogStream :=
  if s.buffer.avail ≥ kMaxNumericSize then do
    let (data, len) ← convert s.buffer.data s.buffer.cur v
    let buffer ← { s.buffer with data := data }.add len
    return { s with buffer := buffer }
  else return s

/-- `append(data, len)` of the buffer. -/
def appendBytes (s : LogStream) (data : List UInt8) (len : Nat) : Except OutOfBounds LogStream := do
  let buffer ← s.buffer.append data len
  return { s with buffer := buffer }

/-- `append(data, len)`, with the length as an `int`. -/
def append (s : LogStream) (data : List UInt8) (len : Int) : Except OutOfBounds LogStream :=
  s.appendBytes data (toUnsigned 64 len)

def shlInt (s : LogStream) (v : Int32) : Except OutOfBounds LogStream := s.formatInteger v.toInt

def shlUnsignedInt (s : LogStream) (v : UInt32) : Except OutOfBounds LogStream :=
  s.formatInteger v.toNat

def shlPointer (s : LogStream) (p : UInt64) : Except OutOfBounds LogStream :=
  if s.buffer.avail ≥ kMaxNumericSize then do
    let buf := s.buffer.cur
    let data ← s.buffer.data.write buf (text "0")
    let data ← data.write (buf + 1) (text "x")
    let (data, len) ← convertHex data (buf + 2) p.toNat
    let buffer ← { s.buffer with data := data }.add (len + 2)
    return { s with buffer := buffer }
  else return s

def shlDouble (f : Doubles) (s : LogStream) (v : UInt64) : Except OutOfBounds LogStream :=
  if s.buffer.avail ≥ kMaxNumericSize then do
    let (data, len) ← snprintf s.buffer.data s.buffer.cur kMaxNumericSize (f.g12 v)
    let buffer ← { s.buffer with data := data }.add len
    return { s with buffer := buffer }
  else return s

def shlChars (s : LogStream) (str : Option CString) : Except OutOfBounds LogStream :=
  match str with
  | some str => s.appendBytes str.chars str.chars.length
  | none => s.appendBytes (text "(null)") 6

def shlStringPiece (s : LogStream) (v : StringPiece) : Except OutOfBounds LogStream :=
  s.appendBytes v.ptr v.sizeT

/-- `operator<<` -/
def shl (f : Doubles) (s : LogStream) : Piece → Except OutOfBounds LogStream
  | .bool v => s.appendBytes (if v then text "1" else text "0") 1
  | .short v => s.shlInt v.toInt32
  | .unsignedShort v => s.shlUnsignedInt v.toUInt32
  | .int v => s.shlInt v
  | .unsignedInt v => s.shlUnsignedInt v
  | .long v => s.formatInteger v.toInt
  | .unsignedLong v => s.formatInteger v.toNat
  | .longLong v => s.formatInteger v.toInt
  | .unsignedLongLong v => s.formatInteger v.toNat
  | .pointer p => s.shlPointer p
  | .float v => s.shlDouble f (f.ofFloat v)
  | .double v => s.shlDouble f v
  | .char v => s.appendBytes [v] 1
  | .chars str => s.shlChars str
  | .unsignedChars str => s.shlChars str
  | .string v => s.appendBytes v v.length
  | .stringPiece v => s.shlStringPiece v
  | .buffer v => s.shlStringPiece v.toStringPiece
  | .append v => s.append v.val.ptr v.val.length
  | .fmt v => s.append v.buf.cells v.length

def resetBuffer (s : LogStream) : LogStream := { s with buffer := s.buffer.reset }

/-! ## Runs -/

inductive Action
  | shl (p : Piece)
  | resetBuffer

def step (f : Doubles) (s : LogStream) : Action → Option (Except OutOfBounds LogStream)
  | .shl p => some (s.shl f p)
  | .resetBuffer => some (.ok s.resetBuffer)

def runs (f : Doubles) : System LogStream Action OutOfBounds where
  init s := ∃ data, s = new data
  step := step f

/-! ## What is to be written -/

end LogStream

namespace Piece

def charsText : Option CString → List UInt8
  | some str => str.chars
  | none => text "(null)"

/-- The text of a piece. -/
def rendered (f : Doubles) : Piece → List UInt8
  | .bool v => text (if v then "1" else "0")
  | .short v => decimal v.toInt
  | .unsignedShort v => decimal v.toNat
  | .int v => decimal v.toInt
  | .unsignedInt v => decimal v.toNat
  | .long v => decimal v.toInt
  | .unsignedLong v => decimal v.toNat
  | .longLong v => decimal v.toInt
  | .unsignedLongLong v => decimal v.toNat
  | .pointer p => text "0x" ++ numeral 16 p.toNat
  | .float v => f.g12 (f.ofFloat v)
  | .double v => f.g12 v
  | .char v => [v]
  | .chars str => charsText str
  | .unsignedChars str => charsText str
  | .string v => v
  | .stringPiece v => v.val.ptr.take v.val.sizeT
  | .buffer v => v.content
  | .append v => v.val.ptr.take v.val.sizeT
  | .fmt v => v.buf.cells.take v.length

/-- The free bytes that admit a piece: `kMaxNumericSize` for a number, and one more than its
length for a string. -/
def room : Piece → Nat
  | .bool _ | .char _ => 2
  | .short _ | .unsignedShort _ | .int _ | .unsignedInt _ | .long _ | .unsignedLong _
  | .longLong _ | .unsignedLongLong _ | .pointer _ | .float _ | .double _ =>
      LogStream.kMaxNumericSize
  | .chars str | .unsignedChars str => (charsText str).length + 1
  | .string v => v.length + 1
  | .stringPiece v | .append v => v.val.sizeT + 1
  | .buffer v => v.cur + 1
  | .fmt v => v.length + 1

end Piece

namespace LogStream

/-- The texts that are kept, of those of the pieces: a reset begins anew, and a piece is kept if
it is admitted. -/
def keep (f : Doubles) (kept : List (List UInt8)) : Action → List (List UInt8)
  | .shl p => if p.room ≤ kSmallBuffer - kept.flatten.length then kept ++ [p.rendered f] else kept
  | .resetBuffer => []

end LogStream

/-! ## The buffer -/

namespace Detail.FixedBuffer

variable {SIZE : Nat} {b t : FixedBuffer SIZE} {m : Memory UInt8 SIZE} {xs zs : List UInt8}
  {len room : Nat}

@[simp] theorem content_length : b.content.length = b.cur := by
  rw [content, List.length_take, b.data.length_cells, Nat.min_eq_left b.cur_le]

theorem avail_eq (hsize : SIZE < 2 ^ 31) : b.avail = ((SIZE - b.cur : Nat) : Int) := by
  have hle := b.cur_le
  have hcast : ((SIZE - b.cur : Nat) : Int) = (SIZE : Int) - b.cur := by omega
  rw [avail, ← hcast]
  apply narrow_eq (by decide)
  simp only [Fits]
  omega

/-- The free bytes as a `size_t`. -/
theorem avail_toUnsigned (hsize : SIZE < 2 ^ 31) : toUnsigned 64 b.avail = SIZE - b.cur := by
  rw [avail_eq hsize]
  exact toUnsigned_natCast (by omega)

/-- `t` is `b` with one more piece, if that was admitted. -/
def Took (b t : FixedBuffer SIZE) (room : Nat) (xs : List UInt8) : Prop :=
  t.content = b.content ++ if room ≤ SIZE - b.cur then xs else []

theorem took_dropped (h : ¬ room ≤ SIZE - b.cur) : Took b b room xs := by
  rw [Took, if_neg h, List.append_nil]

/-- A piece that is shorter than its room leaves a byte free. -/
theorem Took.cur_lt (h : Took b t room xs) (hxs : xs.length < room) (hb : b.cur < SIZE) :
    t.cur < SIZE := by
  have hlen := congrArg List.length h
  rw [List.length_append, content_length, content_length] at hlen
  split at hlen
  · omega
  · rw [List.length_nil] at hlen
    omega

/-- `cur_` moves behind what was written, and may leave something of it. -/
theorem add_written (hroom : room ≤ SIZE - b.cur) (h : b.data.write b.cur (xs ++ zs) = .ok m) :
    ∃ t, { b with data := m }.add xs.length = .ok t ∧ Took b t room xs := by
  have hfits := (Memory.write_eq_ok.mp h).1
  rw [List.length_append] at hfits
  have hle : b.cur + xs.length ≤ SIZE := by omega
  refine ⟨_, dif_pos hle, ?_⟩
  have htake := congrArg (List.take (b.cur + xs.length)) (Memory.take_write h)
  rw [List.take_take, Nat.min_eq_left (by rw [List.length_append]; omega),
    ← List.append_assoc] at htake
  rw [Took, if_pos hroom]
  calc m.cells.take (b.cur + xs.length)
      = (b.content ++ xs ++ zs).take (b.cur + xs.length) := htake
    _ = b.content ++ xs := List.take_left' (by rw [List.length_append, content_length])

theorem append_spec (hsize : SIZE < 2 ^ 31) (hread : len < SIZE → len ≤ xs.length) :
    ∃ t, b.append xs len = .ok t ∧ Took b t (len + 1) (xs.take len) := by
  rw [append, avail_toUnsigned hsize]
  by_cases hroom : SIZE - b.cur > len
  · have hle : len ≤ xs.length := hread (by omega)
    have hlen : (xs.take len).length = len := List.length_take_of_le hle
    obtain ⟨m, hm⟩ := b.data.exists_write b.cur (xs.take len)
      (by rw [hlen]; omega)
    rw [← List.append_nil (xs.take len)] at hm
    obtain ⟨t, ht, htook⟩ := add_written (Nat.succ_le_of_lt hroom) hm
    rw [List.append_nil] at hm
    rw [hlen] at ht
    rw [if_pos hroom, Memory.read_ok hle, ok_bind, hm, ok_bind]
    exact ⟨t, ht, htook⟩
  · rw [if_neg hroom]
    exact ⟨b, rfl, took_dropped (by omega)⟩

/-- There is a byte for the terminator. -/
theorem debugString_ok (h : b.cur < SIZE) :
    ∃ t, b.debugString = .ok t ∧ t.data.cells.take (t.cur + 1) = b.content ++ [0] := by
  obtain ⟨m, hm⟩ := b.data.exists_write b.cur ([0]) h
  rw [debugString, hm]
  exact ⟨_, rfl, Memory.take_write hm⟩

end Detail.FixedBuffer

/-! ## The operators -/

/-- A text of fewer than 32 bytes is not cut off. -/
theorem Fmt.ofFormat_ok (buf : Memory UInt8 32) {chars : List UInt8} (h : chars.length < 32) :
    ∃ v, Fmt.ofFormat buf chars = .ok v ∧ v.length = chars.length ∧
      buf.write 0 (chars ++ [0]) = .ok v.buf := by
  have htake : chars.take (32 - 1) = chars := List.take_of_length_le (by omega)
  obtain ⟨m, hm⟩ := buf.exists_write 0 (chars ++ [0])
    (by rw [List.length_append, List.length_singleton]; omega)
  rw [ofFormat, snprintf, htake, hm]
  simp only [ok_bind, pure_eq_ok, nested_ok, dif_pos h]
  exact ⟨_, rfl, rfl, rfl⟩

namespace LogStream

variable {f : Doubles} {s t : LogStream} {v : Int} {xs : List UInt8} {len : Nat}

theorem kSmallBuffer_lt : kSmallBuffer < 2 ^ 31 := by decide

theorem content_new (data : Memory UInt8 kSmallBuffer) : (new data).buffer.content = [] :=
  List.take_zero

theorem cur_new (data : Memory UInt8 kSmallBuffer) : (new data).buffer.cur < kSmallBuffer :=
  Nat.succ_pos 3999

theorem avail_ge : s.buffer.avail ≥ kMaxNumericSize ↔
    kMaxNumericSize ≤ kSmallBuffer - s.buffer.cur := by
  rw [FixedBuffer.avail_eq kSmallBuffer_lt]
  exact Int.ofNat_le

theorem appendBytes_spec (xs : List UInt8) (len : Nat)
    (hread : len < kSmallBuffer → len ≤ xs.length) :
    ∃ t, s.appendBytes xs len = .ok t ∧ s.buffer.Took t.buffer (len + 1) (xs.take len) := by
  obtain ⟨b, hb, htook⟩ := s.buffer.append_spec kSmallBuffer_lt hread
  rw [appendBytes, hb]
  exact ⟨⟨b⟩, rfl, htook⟩

theorem appendBytes_all (xs : List UInt8) :
    ∃ t, s.appendBytes xs xs.length = .ok t ∧ s.buffer.Took t.buffer (xs.length + 1) xs := by
  have h := s.appendBytes_spec xs xs.length fun _ => Nat.le_refl _
  rw [List.take_length] at h
  exact h

/-- A piece of memory is as long as it says, or longer than any buffer. -/
theorem appendBytes_piece (p : StringPiece) (hp : p.Readable) :
    ∃ t, s.appendBytes p.ptr p.sizeT = .ok t ∧
      s.buffer.Took t.buffer (p.sizeT + 1) (p.ptr.take p.sizeT) := by
  obtain ⟨hfits, hle⟩ := hp
  rw [fits_32] at hfits
  apply appendBytes_spec
  intro hlt
  have hsize : (p.sizeT : Int) = p.length % (2 ^ 64 : Nat) := cast_toUnsigned 64 p.length
  have hpow : ((2 ^ 64 : Nat) : Int) = 18446744073709551616 := by norm_num
  rw [hpow] at hsize
  rw [kSmallBuffer] at hlt
  omega

/-- What is written in place is written if there is room for any number. -/
theorem admitted_spec {body : Except OutOfBounds LogStream}
    (h : kMaxNumericSize ≤ kSmallBuffer - s.buffer.cur →
      ∃ t, body = .ok t ∧ s.buffer.Took t.buffer kMaxNumericSize xs) :
    ∃ t, (if s.buffer.avail ≥ kMaxNumericSize then body else pure s) = .ok t ∧
      s.buffer.Took t.buffer kMaxNumericSize xs := by
  by_cases hroom : kMaxNumericSize ≤ kSmallBuffer - s.buffer.cur
  · rw [if_pos (avail_ge.mpr hroom)]
    exact h hroom
  · rw [if_neg (mt avail_ge.mp hroom)]
    exact ⟨s, rfl, FixedBuffer.took_dropped hroom⟩

theorem formatInteger_spec (hlen : (decimal v).length < kMaxNumericSize) :
    ∃ t, s.formatInteger v = .ok t ∧ s.buffer.Took t.buffer kMaxNumericSize (decimal v) := by
  refine admitted_spec fun hroom => ?_
  obtain ⟨m, hm, hconvert⟩ := convert_eq s.buffer.data s.buffer.cur v (by omega)
  obtain ⟨b, hb, htook⟩ := FixedBuffer.add_written hroom hm
  simp only [hconvert, hb, ok_bind]
  exact ⟨⟨b⟩, rfl, htook⟩

theorem numeral_length_pointer (p : UInt64) : (numeral 16 p.toNat).length ≤ 16 :=
  (numeral_length_le (by decide) (by decide)).mpr p.toNat_lt

theorem shlPointer_spec (p : UInt64) : ∃ t, s.shlPointer p = .ok t ∧
    s.buffer.Took t.buffer kMaxNumericSize (text "0x" ++ numeral 16 p.toNat) := by
  refine admitted_spec fun hroom => ?_
  have hlen := numeral_length_pointer p
  have hfree : s.buffer.cur + 48 ≤ kSmallBuffer := by
    rw [kMaxNumericSize] at hroom
    have hle := s.buffer.cur_le
    omega
  obtain ⟨m₁, h₁⟩ := s.buffer.data.exists_write s.buffer.cur (text "0")
    (Nat.le_trans (Nat.add_le_add_left (by decide) _) hfree)
  obtain ⟨m₂, h₂⟩ := m₁.exists_write (s.buffer.cur + 1) (text "x")
    (Nat.le_trans (Nat.add_le_add_left (m := 47) (by decide) _) (by omega))
  obtain ⟨m, hm, hconvert⟩ := convertHex_eq m₂ (s.buffer.cur + 2) p.toNat (by omega)
  -- the three writes are one
  have hstart : s.buffer.data.write s.buffer.cur (text "0x") = .ok m₂ := by
    have happ := s.buffer.data.write_append s.buffer.cur (text "0") (text "x")
    rw [h₁, ok_bind] at happ
    exact happ.symm.trans h₂
  have hall : s.buffer.data.write s.buffer.cur ((text "0x" ++ numeral 16 p.toNat) ++ [0])
      = .ok m := by
    have happ := s.buffer.data.write_append s.buffer.cur (text "0x")
      (numeral 16 p.toNat ++ [0])
    rw [hstart, ok_bind] at happ
    rw [List.append_assoc]
    exact happ.symm.trans hm
  obtain ⟨b, hb, htook⟩ := FixedBuffer.add_written hroom hall
  rw [List.length_append, Nat.add_comm] at hb
  have hadd : FixedBuffer.add { s.buffer with data := m } ((numeral 16 p.toNat).length + 2)
      = .ok b := hb
  simp only [h₁, h₂, hconvert, hadd, ok_bind]
  exact ⟨⟨b⟩, rfl, htook⟩

theorem shlDouble_spec (d : UInt64) (hlen : (f.g12 d).length < kMaxNumericSize) :
    ∃ t, s.shlDouble f d = .ok t ∧ s.buffer.Took t.buffer kMaxNumericSize (f.g12 d) := by
  refine admitted_spec fun hroom => ?_
  have htake : (f.g12 d).take (kMaxNumericSize - 1) = f.g12 d :=
    List.take_of_length_le (by omega)
  obtain ⟨m, hm⟩ := s.buffer.data.exists_write s.buffer.cur (f.g12 d ++ [0])
    (by rw [List.length_append, List.length_singleton]; omega)
  obtain ⟨b, hb, htook⟩ := FixedBuffer.add_written hroom hm
  rw [snprintf, htake, hm]
  simp only [ok_bind, pure_eq_ok, hb]
  exact ⟨⟨b⟩, rfl, htook⟩

/-- Integers of up to 64 bits. -/
theorem decimal_length_lt (h : v.natAbs ≤ 2 ^ 64) : (decimal v).length < kMaxNumericSize := by
  have hle := decimal_length_le (v := v) (k := 20) (by decide) (by omega)
  exact Nat.lt_of_le_of_lt hle (by decide)

theorem decimal_length_int (v : Int32) : (decimal v.toInt).length < kMaxNumericSize := by
  have hlow := v.le_toInt
  have hhigh := v.toInt_lt
  exact decimal_length_lt (by omega)

theorem decimal_length_unsignedInt (v : UInt32) :
    (decimal v.toNat).length < kMaxNumericSize := by
  have hlt := v.toNat_lt
  exact decimal_length_lt (by omega)

theorem decimal_length_long (v : Int64) : (decimal v.toInt).length < kMaxNumericSize := by
  have hlow := v.le_toInt
  have hhigh := v.toInt_lt
  exact decimal_length_lt (by omega)

theorem decimal_length_unsignedLong (v : UInt64) :
    (decimal v.toNat).length < kMaxNumericSize := by
  have hlt := v.toNat_lt
  exact decimal_length_lt (by omega)

theorem shlInt_spec (v : Int32) : ∃ t, s.shlInt v = .ok t ∧
    s.buffer.Took t.buffer kMaxNumericSize (decimal v.toInt) :=
  formatInteger_spec (decimal_length_int v)

theorem shlUnsignedInt_spec (v : UInt32) : ∃ t, s.shlUnsignedInt v = .ok t ∧
    s.buffer.Took t.buffer kMaxNumericSize (decimal v.toNat) :=
  formatInteger_spec (decimal_length_unsignedInt v)

theorem shlChars_spec (str : Option CString) : ∃ t, s.shlChars str = .ok t ∧
    s.buffer.Took t.buffer ((Piece.charsText str).length + 1) (Piece.charsText str) := by
  cases str with
  | none => exact s.appendBytes_all (text "(null)")
  | some str => exact appendBytes_all _

/-- A buffer stands for its content. -/
theorem readable_toStringPiece (b : FixedBuffer kSmallBuffer) :
    b.toStringPiece.Readable ∧ b.toStringPiece.sizeT = b.cur := by
  have hle : b.cur ≤ 4000 := b.cur_le
  have hfits : Fits 32 b.cur := by
    rw [fits_32]
    omega
  have hlength : b.toStringPiece.length = b.cur := by
    simp only [FixedBuffer.toStringPiece, FixedBuffer.length]
    exact narrow_eq (by decide) hfits
  refine ⟨⟨?_, ?_⟩, ?_⟩
  · rw [hlength]
    exact hfits
  · rw [hlength]
    show (b.cur : Int) ≤ b.data.cells.length
    rw [b.data.length_cells]
    exact Int.ofNat_le.mpr b.cur_le
  · rw [StringPiece.sizeT, hlength]
    exact toUnsigned_natCast (by omega)

/-- Every operator appends the text of its operand, or nothing if there is no room for it. -/
theorem shl_spec (hf : ∀ d, (f.g12 d).length < kMaxNumericSize) (p : Piece) :
    ∃ t, s.shl f p = .ok t ∧ s.buffer.Took t.buffer p.room (p.rendered f) := by
  cases p with
  | bool v =>
      cases v with
      | false => exact s.appendBytes_all (text "0")
      | true => exact s.appendBytes_all (text "1")
  | short v =>
      have h := s.shlInt_spec v.toInt32
      rw [Int16.toInt_toInt32] at h
      exact h
  | unsignedShort v =>
      have h := s.shlUnsignedInt_spec v.toUInt32
      rw [UInt16.toNat_toUInt32] at h
      exact h
  | int v => exact shlInt_spec v
  | unsignedInt v => exact shlUnsignedInt_spec v
  | long v => exact formatInteger_spec (decimal_length_long v)
  | unsignedLong v => exact formatInteger_spec (decimal_length_unsignedLong v)
  | longLong v => exact formatInteger_spec (decimal_length_long v)
  | unsignedLongLong v => exact formatInteger_spec (decimal_length_unsignedLong v)
  | pointer p => exact shlPointer_spec p
  | float v => exact shlDouble_spec _ (hf _)
  | double v => exact shlDouble_spec v (hf v)
  | char v => exact s.appendBytes_all [v]
  | chars str => exact shlChars_spec str
  | unsignedChars str => exact shlChars_spec str
  | string v => exact appendBytes_all _
  | stringPiece v => exact appendBytes_piece v.val v.property
  | buffer v =>
      obtain ⟨hread, hsize⟩ := readable_toStringPiece v
      have h := s.appendBytes_piece v.toStringPiece hread
      rw [hsize] at h
      show ∃ t, s.shlStringPiece v.toStringPiece = .ok t ∧ _
      rw [shlStringPiece, hsize]
      exact h
  | append v => exact appendBytes_piece v.val v.property
  | fmt v =>
      have hlt := v.length_lt
      have hsize : toUnsigned 64 (v.length : Int) = v.length := toUnsigned_natCast (by omega)
      have hread : v.length ≤ v.buf.cells.length := by
        rw [v.buf.length_cells]
        exact hlt.le
      have h := s.appendBytes_spec v.buf.cells v.length fun _ => hread
      show ∃ t, s.append v.buf.cells v.length = .ok t ∧ _
      rw [append, hsize]
      exact h

/-- A piece that is admitted leaves a byte free. -/
theorem rendered_lt_room (hf : ∀ d, (f.g12 d).length < kMaxNumericSize) (p : Piece) :
    (p.rendered f).length < p.room := by
  cases p with
  | bool v =>
      cases v with
      | false => exact Nat.lt_succ_self 1
      | true => exact Nat.lt_succ_self 1
  | short v =>
      have h := decimal_length_int v.toInt32
      rw [Int16.toInt_toInt32] at h
      exact h
  | unsignedShort v =>
      have h := decimal_length_unsignedInt v.toUInt32
      rw [UInt16.toNat_toUInt32] at h
      exact h
  | int v => exact decimal_length_int v
  | unsignedInt v => exact decimal_length_unsignedInt v
  | long v => exact decimal_length_long v
  | unsignedLong v => exact decimal_length_unsignedLong v
  | longLong v => exact decimal_length_long v
  | unsignedLongLong v => exact decimal_length_unsignedLong v
  | pointer p =>
      have hlen := numeral_length_pointer p
      show (text "0x" ++ numeral 16 p.toNat).length < 48
      rw [List.length_append]
      have htext : (text "0x").length = 2 := rfl
      omega
  | float v => exact hf _
  | double v => exact hf v
  | char v => exact Nat.lt_succ_self 1
  | chars str => exact Nat.lt_succ_self _
  | unsignedChars str => exact Nat.lt_succ_self _
  | string v => exact Nat.lt_succ_self _
  | stringPiece v => exact Nat.lt_succ_of_le (List.length_take_le _ _)
  | buffer v =>
      show v.content.length < v.cur + 1
      rw [FixedBuffer.content_length]
      exact Nat.lt_succ_self _
  | append v => exact Nat.lt_succ_of_le (List.length_take_le _ _)
  | fmt v => exact Nat.lt_succ_of_le (List.length_take_le _ _)

/-! ## Runs -/

/-- The buffer holds the texts that are kept, and a byte is free. -/
def Holds (s : LogStream) (kept : List (List UInt8)) : Prop :=
  s.buffer.content = kept.flatten ∧ s.buffer.cur < kSmallBuffer

/-- Each call succeeds, and keeps what is to be kept. -/
theorem holds_next (hf : ∀ d, (f.g12 d).length < kMaxNumericSize) {kept : List (List UInt8)}
    (h : s.Holds kept) (a : Action) :
    ∃ t, (runs f).Next s a t ∧ t.Holds (keep f kept a) := by
  obtain ⟨hcontent, hcur⟩ := h
  cases a with
  | resetBuffer => exact ⟨s.resetBuffer, rfl, rfl, Nat.succ_pos 3999⟩
  | shl p =>
      obtain ⟨t, ht, htook⟩ := s.shl_spec hf p
      have hlen : kept.flatten.length = s.buffer.cur := by
        rw [← hcontent, FixedBuffer.content_length]
      refine ⟨t, congrArg some ht, ?_, htook.cur_lt (rendered_lt_room hf p) hcur⟩
      rw [keep, hlen, htook, hcontent]
      split
      · rw [List.flatten_append, List.flatten_singleton]
      · rw [List.append_nil]

/-- In any sequence of calls each call succeeds, and at its end the buffer holds the texts of the
pieces that were admitted since the last reset, each of them whole. A byte is free, so that the
terminator of `debugString` is in bounds. -/
theorem logStream_content (hf : ∀ d, (f.g12 d).length < kMaxNumericSize)
    (h₀ : (runs f).init s) (as : List Action) :
    ∃ t, (runs f).Run System.always s as t ∧
      t.buffer.content = (as.foldl (keep f) []).flatten ∧ t.buffer.cur < kSmallBuffer ∧
      ∃ b, t.buffer.debugString = .ok b := by
  obtain ⟨data, rfl⟩ := h₀
  have hrun : ∃ t, (runs f).Run System.always (new data) as t ∧ t.Holds (as.foldl (keep f) []) := by
    induction as using List.reverseRecOn with
    | nil => exact ⟨new data, System.Run.nil, content_new data, cur_new data⟩
    | append_singleton as a ih =>
        obtain ⟨t, hr, ht⟩ := ih
        obtain ⟨u, hn, hu⟩ := holds_next hf ht a
        refine ⟨u, hr.snoc trivial hn, ?_⟩
        rw [List.foldl_append]
        exact hu
  obtain ⟨t, hr, hcontent, hcur⟩ := hrun
  obtain ⟨b, hb, -⟩ := t.buffer.debugString_ok hcur
  exact ⟨t, hr, hcontent, hcur, b, hb⟩

/-- A number, a null pointer, a string that is one byte too long for the rest of the buffer, and
a double. -/
def sampleActions (long : List UInt8) : List Action :=
  [.shl (.int (-42)), .shl (.chars none), .shl (.string long),
    .shl (.double 0x3FF8000000000000)]

/-- The text of 1.5 -/
def sampleDoubles : Doubles where
  ofFloat _ := 0x3FF8000000000000
  g12 _ := text "1.5"

theorem logStream_content_sample :
    ∃ t, (runs sampleDoubles).Run System.always
        (new ⟨List.replicate kSmallBuffer 0, List.length_replicate⟩)
        (sampleActions (List.replicate 3991 120)) t ∧ t.buffer.content = text "-42(null)1.5" := by
  have hlong : (List.replicate 3991 (120 : UInt8)).length = 3991 := List.length_replicate
  generalize List.replicate 3991 (120 : UInt8) = long at hlong ⊢
  obtain ⟨t, hr, hcontent, -⟩ := logStream_content (f := sampleDoubles)
    (fun _ => show (text "1.5").length < kMaxNumericSize by decide) ⟨_, rfl⟩ (sampleActions long)
  refine ⟨t, hr, hcontent.trans ?_⟩
  have hdec : decimal (-42) = text "-42" := by decide
  simp [sampleActions, keep, Piece.room, Piece.rendered, Piece.charsText, hdec, hlong,
    sampleDoubles, kMaxNumericSize, kSmallBuffer, text]

end LogStream

end Zing.Base
