import Zing.Lib.Endian
import Zing.Net.Buffer

set_option autoImplicit false

/-! # Integers in a `Buffer`

The functions of `Buffer.h` that put integers of 8, 16, 32 and 64 bits into a buffer and take
them out, and the conversions of `Endian.h`. The three wider ones differ only in the number of
bytes; `appendInt8` and its siblings copy the one byte as it is. The byte order `o` of the host
is a parameter.
-/

namespace Zing.Net

open Zing.Lib

/-! ## `Endian.h` -/

/-- `sockets::hostToNetwork16`, `32` and `64`, on unsigned integers of `n` bytes. -/
def hostToNetwork (o : ByteOrder) (n host : Nat) : Nat := htobe o n host

/-- `sockets::networkToHost16`, `32` and `64`. -/
def networkToHost (o : ByteOrder) (n net : Nat) : Nat := betoh o n net

namespace Buffer

variable (o : ByteOrder) (b : Buffer) (x : Int)

/-- The assertions of the functions below, and those of the functions they call. -/
inductive IntAssertion
  | peekInt64
  | peekInt32
  | peekInt16
  | peekInt8
  | buffer (e : Assertion)
deriving DecidableEq, Repr

/-! ## The functions -/

/-- The memory of a variable of a signed type of `n` bytes. -/
def memory (n : Nat) (x : Int) : List Byte := store o n (toUnsigned (8 * n) x)

/-- The value in network order, a signed variable again. -/
def networkOrder (n : Nat) (x : Int) : Int :=
  narrow (8 * n) (hostToNetwork o n (toUnsigned (8 * n) x))

def appendInt (n : Nat) : Except IntAssertion Buffer :=
  nested .buffer (b.append (memory o n (networkOrder o n x)))

def appendInt64 : Except IntAssertion Buffer := b.appendInt o x 8

def appendInt32 : Except IntAssertion Buffer := b.appendInt o x 4

def appendInt16 : Except IntAssertion Buffer := b.appendInt o x 2

def appendInt8 : Except IntAssertion Buffer := nested .buffer (b.append (memory o 1 x))

/-- Copy `n` bytes from `peek()` into a variable of the host, which is then converted. -/
def peekInt (n : Nat) (e : IntAssertion) : Except IntAssertion Int := do
  check (n ≤ b.readableBytes) e
  let be := narrow (8 * n) (load o (segment b.buffer b.readerIndex (b.readerIndex + n)))
  return narrow (8 * n) (networkToHost o n (toUnsigned (8 * n) be))

def peekInt64 : Except IntAssertion Int := b.peekInt o 8 .peekInt64

def peekInt32 : Except IntAssertion Int := b.peekInt o 4 .peekInt32

def peekInt16 : Except IntAssertion Int := b.peekInt o 2 .peekInt16

/-- The byte that `peek()` points to, as an `int8_t`. -/
def peekInt8 : Except IntAssertion Int := do
  check (1 ≤ b.readableBytes) .peekInt8
  return narrow 8 (b.buffer.getD b.readerIndex 0).toNat

/-- Peek at an integer of `n` bytes, then retrieve it. -/
def readInt (n : Nat) (peek : Except IntAssertion Int) : Except IntAssertion (Int × Buffer) := do
  let result ← peek
  let b ← nested .buffer (b.retrieve n)
  return (result, b)

def readInt64 : Except IntAssertion (Int × Buffer) := b.readInt 8 (b.peekInt64 o)

def readInt32 : Except IntAssertion (Int × Buffer) := b.readInt 4 (b.peekInt32 o)

def readInt16 : Except IntAssertion (Int × Buffer) := b.readInt 2 (b.peekInt16 o)

def readInt8 : Except IntAssertion (Int × Buffer) := b.readInt 1 b.peekInt8

def prependInt (n : Nat) : Except IntAssertion Buffer :=
  nested .buffer (b.prepend (memory o n (networkOrder o n x)))

def prependInt64 : Except IntAssertion Buffer := b.prependInt o x 8

def prependInt32 : Except IntAssertion Buffer := b.prependInt o x 4

def prependInt16 : Except IntAssertion Buffer := b.prependInt o x 2

def prependInt8 : Except IntAssertion Buffer := nested .buffer (b.prepend (memory o 1 x))

/-! ## By width -/

/-- The four widths. -/
inductive Width
  | w8
  | w16
  | w32
  | w64
deriving DecidableEq, Repr

/-- `sizeof` -/
def Width.bytes : Width → Nat
  | .w8 => 1
  | .w16 => 2
  | .w32 => 4
  | .w64 => 8

def Width.append (w : Width) : Except IntAssertion Buffer :=
  match w with
  | .w8 => b.appendInt8 o x
  | .w16 => b.appendInt16 o x
  | .w32 => b.appendInt32 o x
  | .w64 => b.appendInt64 o x

def Width.peek (w : Width) : Except IntAssertion Int :=
  match w with
  | .w8 => b.peekInt8
  | .w16 => b.peekInt16 o
  | .w32 => b.peekInt32 o
  | .w64 => b.peekInt64 o

def Width.read (w : Width) : Except IntAssertion (Int × Buffer) :=
  match w with
  | .w8 => b.readInt8
  | .w16 => b.readInt16 o
  | .w32 => b.readInt32 o
  | .w64 => b.readInt64 o

def Width.prepend (w : Width) : Except IntAssertion Buffer :=
  match w with
  | .w8 => b.prependInt8 o x
  | .w16 => b.prependInt16 o x
  | .w32 => b.prependInt32 o x
  | .w64 => b.prependInt64 o x

/-- A value of the integer type of some width. -/
structure Sized where
  width : Width
  value : Int
  fits : Fits (8 * width.bytes) value

/-- Append integers one after the other. -/
def appendInts (o : ByteOrder) (b : Buffer) : List Sized → Except IntAssertion Buffer
  | [] => .ok b
  | x :: xs => do
      let b ← x.width.append o b x.value
      appendInts o b xs

/-- Read integers of the given widths one after the other. -/
def readInts (o : ByteOrder) (b : Buffer) : List Width → Except IntAssertion (List Int × Buffer)
  | [] => .ok ([], b)
  | w :: ws => do
      let (x, b) ← w.read o b
      let (xs, b) ← readInts o b ws
      return (x :: xs, b)

/-- The big-endian two's complement of `x` in `n` bytes. -/
def twosComplement (n : Nat) (x : Int) : List Byte := bigEndian n (toUnsigned (8 * n) x)

/-- The bytes of a list of integers, one after the other. -/
def encoding (xs : List Sized) : List Byte :=
  xs.flatMap fun x => twosComplement x.width.bytes x.value

section

variable {o : ByteOrder} {b : Buffer} {x : Int} {n : Nat} {w : Width}

/-! ## The bytes stored -/

theorem pow_bits (n : Nat) : 2 ^ (8 * n) = 256 ^ n := Nat.pow_mul 2 8 n

@[simp] theorem length_twosComplement : (twosComplement n x).length = n := length_bigEndian _ _

theorem memory_networkOrder : memory o n (networkOrder o n x) = twosComplement n x := by
  have hlt : htobe o n (toUnsigned (8 * n) x) < 2 ^ (8 * n) := by
    rw [pow_bits]
    apply htobe_lt
    rw [← pow_bits]
    exact toUnsigned_lt _ _
  rw [memory, networkOrder, hostToNetwork, toUnsigned_narrow hlt, store_htobe, twosComplement]

/-- A single byte has no order. -/
theorem memory_one : memory o 1 x = twosComplement 1 x := by
  cases o with
  | little => rfl
  | big => rfl

theorem Width.append_eq :
    w.append o b x = nested .buffer (b.append (twosComplement w.bytes x)) := by
  cases w with
  | w8 => rw [Width.append, appendInt8, memory_one, Width.bytes]
  | w16 => rw [Width.append, appendInt16, appendInt, memory_networkOrder, Width.bytes]
  | w32 => rw [Width.append, appendInt32, appendInt, memory_networkOrder, Width.bytes]
  | w64 => rw [Width.append, appendInt64, appendInt, memory_networkOrder, Width.bytes]

theorem Width.prepend_eq :
    w.prepend o b x = nested .buffer (b.prepend (twosComplement w.bytes x)) := by
  cases w with
  | w8 => rw [Width.prepend, prependInt8, memory_one, Width.bytes]
  | w16 => rw [Width.prepend, prependInt16, prependInt, memory_networkOrder, Width.bytes]
  | w32 => rw [Width.prepend, prependInt32, prependInt, memory_networkOrder, Width.bytes]
  | w64 => rw [Width.prepend, prependInt64, prependInt, memory_networkOrder, Width.bytes]

theorem append_int_spec (h : b.WF) :
    ∃ b', w.append o b x = .ok b' ∧ b'.WF
      ∧ b'.readable = b.readable ++ twosComplement w.bytes x := by
  obtain ⟨b', hb', hwf, hread, -⟩ := append_spec h (twosComplement w.bytes x)
  rw [Width.append_eq, hb']
  exact ⟨b', rfl, hwf, hread⟩

theorem prepend_int_spec (h : b.WF) (hroom : w.bytes ≤ b.prependableBytes) :
    ∃ b', w.prepend o b x = .ok b' ∧ b'.WF
      ∧ b'.readable = twosComplement w.bytes x ++ b.readable := by
  have hfits : (twosComplement w.bytes x).length ≤ b.prependableBytes := by
    rwa [length_twosComplement]
  obtain ⟨b', hb', hwf, hread⟩ := prepend_spec h hfits
  rw [Width.prepend_eq, hb']
  exact ⟨b', rfl, hwf, hread⟩

/-! ## The value read -/

/-- The integer that `n` bytes in network order stand for. -/
def decode (n : Nat) (bs : List Byte) : Int := narrow (8 * n) (ofBigEndian bs)

theorem decode_twosComplement (hn : 0 < n) (hx : Fits (8 * n) x) :
    decode n (twosComplement n x) = x := by
  have hlt := toUnsigned_lt (8 * n) x
  rw [pow_bits] at hlt
  rw [decode, twosComplement, ofBigEndian_bigEndian, Nat.mod_eq_of_lt hlt]
  exact narrow_toUnsigned (by omega) hx

/-- The front of the readable bytes. -/
theorem take_readable (h : b.WF) (hn : n ≤ b.readableBytes) :
    segment b.buffer b.readerIndex (b.readerIndex + n) = b.readable.take n := by
  have hr := h.reader_le
  rw [readable, take_segment _ _ _ _ (by rw [readableBytes] at hn; omega)]

theorem peekInt_eq {e : IntAssertion} (h : b.WF) (hn : n ≤ b.readableBytes) :
    b.peekInt o n e = .ok (decode n (b.readable.take n)) := by
  have hl : (b.readable.take n).length = n := by
    rw [List.length_take, length_readable h]
    omega
  have hlt : load o (b.readable.take n) < 2 ^ (8 * n) := by
    rw [pow_bits]
    exact load_lt hl
  rw [peekInt, check_bind hn]
  simp only [take_readable h hn, toUnsigned_narrow hlt, networkToHost, betoh_load hl, pure_eq_ok,
    decode]

theorem peekInt8_eq (h : b.WF) (hn : 1 ≤ b.readableBytes) :
    b.peekInt8 = .ok (decode 1 (b.readable.take 1)) := by
  have hw := h.writer_le
  have hlt : b.readerIndex < b.buffer.length := by
    rw [readableBytes] at hn
    omega
  have htake : b.readable.take 1 = [b.buffer[b.readerIndex]] := by
    rw [← take_readable h hn, Lib.segment, List.drop_take, Nat.add_sub_cancel_left,
      List.drop_eq_getElem_cons hlt]
    rfl
  rw [peekInt8, check_bind hn, htake, List.getD_eq_getElem?_getD, List.getElem?_eq_getElem hlt]
  simp [decode, ofBigEndian]

theorem Width.peek_eq (h : b.WF) (hn : w.bytes ≤ b.readableBytes) :
    w.peek o b = .ok (decode w.bytes (b.readable.take w.bytes)) := by
  cases w with
  | w8 => exact peekInt8_eq h hn
  | w16 => exact peekInt_eq h hn
  | w32 => exact peekInt_eq h hn
  | w64 => exact peekInt_eq h hn

theorem Width.read_eq : w.read o b = b.readInt w.bytes (w.peek o b) := by
  cases w with
  | w8 => rfl
  | w16 => rfl
  | w32 => rfl
  | w64 => rfl

theorem read_int_spec (h : b.WF) (hn : w.bytes ≤ b.readableBytes) :
    ∃ b', w.read o b = .ok (decode w.bytes (b.readable.take w.bytes), b') ∧ b'.WF
      ∧ b'.readable = b.readable.drop w.bytes := by
  obtain ⟨b', hb', hwf, hread, -⟩ := retrieve_spec h hn
  rw [Width.read_eq, readInt, Width.peek_eq h hn, ok_bind, hb']
  exact ⟨b', rfl, hwf, hread⟩

/-- Reading where an integer has been written. -/
theorem read_of_readable {rest : List Byte} (h : b.WF) (hx : Fits (8 * w.bytes) x)
    (hread : b.readable = twosComplement w.bytes x ++ rest) :
    ∃ b', w.read o b = .ok (x, b') ∧ b'.WF ∧ b'.readable = rest := by
  have hn : w.bytes ≤ b.readableBytes := by
    rw [← length_readable h, hread, List.length_append, length_twosComplement]
    omega
  have hpos : 0 < w.bytes := by
    cases w with
    | w8 | w16 | w32 | w64 => decide
  obtain ⟨b', hb', hwf, hrest⟩ := read_int_spec (o := o) h hn
  rw [hread, List.take_left' length_twosComplement, decode_twosComplement hpos hx] at hb'
  rw [hread, List.drop_left' length_twosComplement] at hrest
  exact ⟨b', hb', hwf, hrest⟩

theorem bytes_le_of_peek {v : Int} (h : w.peek o b = .ok v) : w.bytes ≤ b.readableBytes := by
  cases w with
  | w8 =>
      rw [Width.peek, peekInt8] at h
      exact of_check h
  | w16 =>
      rw [Width.peek, peekInt16, peekInt] at h
      exact of_check h
  | w32 =>
      rw [Width.peek, peekInt32, peekInt] at h
      exact of_check h
  | w64 =>
      rw [Width.peek, peekInt64, peekInt] at h
      exact of_check h

theorem retrieve_ok (hn : n ≤ b.readableBytes) : ∃ b', b.retrieve n = .ok b' := by
  rw [retrieve, check_bind hn]
  split
  · exact ⟨_, rfl⟩
  · exact ⟨_, rfl⟩

/-- Peeking fails where reading does, and otherwise gives the same value. -/
theorem peek_eq_read : w.peek o b = (w.read o b).map Prod.fst := by
  rw [Width.read_eq, readInt]
  cases hp : w.peek o b with
  | error e => rfl
  | ok v =>
      obtain ⟨b', hb'⟩ := retrieve_ok (bytes_le_of_peek hp)
      rw [ok_bind, hb']
      rfl

/-! ## Lists of integers -/

theorem appendInts_spec (xs : List Sized) (h : b.WF) :
    ∃ b', appendInts o b xs = .ok b' ∧ b'.WF ∧ b'.readable = b.readable ++ encoding xs := by
  induction xs generalizing b with
  | nil => exact ⟨b, rfl, h, (List.append_nil _).symm⟩
  | cons x xs ih =>
      obtain ⟨b₁, hb₁, hwf₁, hread₁⟩ := append_int_spec (o := o) (w := x.width) (x := x.value) h
      obtain ⟨b₂, hb₂, hwf₂, hread₂⟩ := ih hwf₁
      refine ⟨b₂, ?_, hwf₂, ?_⟩
      · rw [appendInts, hb₁, ok_bind, hb₂]
      · rw [hread₂, hread₁, List.append_assoc]
        rfl

theorem readInts_spec (xs : List Sized) {rest : List Byte} (h : b.WF)
    (hread : b.readable = encoding xs ++ rest) :
    ∃ b', readInts o b (xs.map Sized.width) = .ok (xs.map Sized.value, b') ∧ b'.WF
      ∧ b'.readable = rest := by
  induction xs generalizing b with
  | nil => exact ⟨b, rfl, h, hread⟩
  | cons x xs ih =>
      rw [encoding, List.flatMap_cons, List.append_assoc] at hread
      obtain ⟨b₁, hb₁, hwf₁, hread₁⟩ := read_of_readable (o := o) h x.fits hread
      obtain ⟨b₂, hb₂, hwf₂, hread₂⟩ := ih hwf₁ hread₁
      refine ⟨b₂, ?_, hwf₂, hread₂⟩
      rw [List.map_cons, readInts, hb₁, ok_bind]
      simp only [hb₂, ok_bind, pure_eq_ok, List.map_cons]

/-- Integers of mixed widths go through a buffer unchanged, in order and as big-endian two's
complement, whatever the buffer held and whatever the byte order of the host. -/
theorem integer_framing (o : ByteOrder) {b : Buffer} (h : b.WF) (xs : List Sized) :
    (∃ b₁ b₂ b₃, appendInts o b xs = .ok b₁ ∧ b₁.readable = b.readable ++ encoding xs ∧
      b₁.retrieve b.readableBytes = .ok b₂ ∧
      readInts o b₂ (xs.map Sized.width) = .ok (xs.map Sized.value, b₃) ∧
      b₃.readableBytes = 0) ∧
    (∀ w : Width, w.peek o b = (w.read o b).map Prod.fst) ∧
    ∀ x : Sized, x.width.bytes ≤ b.prependableBytes →
      ∃ b₁ b₂, x.width.prepend o b x.value = .ok b₁ ∧
        b₁.readable = twosComplement x.width.bytes x.value ++ b.readable ∧
        x.width.read o b₁ = .ok (x.value, b₂) ∧ b₂.readable = b.readable := by
  refine ⟨?_, fun w => peek_eq_read, ?_⟩
  · obtain ⟨b₁, hb₁, hwf₁, hread₁⟩ := appendInts_spec (o := o) xs h
    have hle : b.readableBytes ≤ b₁.readableBytes := by
      rw [← length_readable h, ← length_readable hwf₁, hread₁, List.length_append]
      omega
    obtain ⟨b₂, hb₂, hwf₂, hread₂, -⟩ := retrieve_spec hwf₁ hle
    rw [hread₁, List.drop_left' (length_readable h)] at hread₂
    obtain ⟨b₃, hb₃, hwf₃, hread₃⟩ :=
      readInts_spec (o := o) xs hwf₂ (hread₂.trans (List.append_nil _).symm)
    exact ⟨b₁, b₂, b₃, hb₁, hread₁, hb₂, hb₃, (readable_eq_nil_iff hwf₃).mp hread₃⟩
  · intro x hroom
    obtain ⟨b₁, hb₁, hwf₁, hread₁⟩ := prepend_int_spec (o := o) (x := x.value) h hroom
    obtain ⟨b₂, hb₂, -, hread₂⟩ := read_of_readable (o := o) hwf₁ x.fits hread₁
    exact ⟨b₁, b₂, hb₁, hread₁, hb₂, hread₂⟩

theorem integer_framing_mixed :
    ∃ b₁ b₂ b₃,
      appendInts .little (new 2) [⟨.w16, -2, by decide⟩, ⟨.w8, -1, by decide⟩] = .ok b₁ ∧
      b₁.readable = [255, 254, 255] ∧ b₁.retrieve (new 2).readableBytes = .ok b₂ ∧
      readInts .little b₂ [.w16, .w8] = .ok ([-2, -1], b₃) ∧ b₃.readableBytes = 0 := by
  have h := (integer_framing .little (new_wf 2) [⟨.w16, -2, by decide⟩, ⟨.w8, -1, by decide⟩]).1
  have hbytes : (new 2).readable ++ encoding [⟨.w16, -2, by decide⟩, ⟨.w8, -1, by decide⟩]
      = [255, 254, 255] := by decide
  rw [hbytes] at h
  exact h

end

end Buffer

end Zing.Net
