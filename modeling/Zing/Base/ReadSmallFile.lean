import Zing.Base.FileUtil
import Zing.Base.StringPiece
import Zing.Lib.System

set_option autoImplicit false

/-! # `ReadSmallFile`

A file that is read with `read` into a string or with `pread` into a buffer of the object. What
`open`, `fstat`, `read` and `pread` do at each call are inputs. A `read` gives at least one byte
where there is one, and as few as it likes; it may fail, with `EINTR` for one. Others append to
the file meanwhile, as the owner of an `AppendFile` does, also between two calls of `read` in
one loop.

`readToString` goes on where the call before it has stopped, also where that one ended with an
error. Along any run nothing of the file is left out or read twice (`reads_in_order`).
-/

namespace Zing.Base.FileUtil

open Zing.Lib

/-! ## The file -/

/-- A value of `errno` behind a call that has failed. -/
abbrev Errno := { errno : Int // 0 < errno }

def EISDIR : Errno := ⟨21, by decide⟩

/-- A file that is open for reading: its bytes, and the position of the descriptor. -/
structure OpenFile where
  data : List UInt8
  offset : Nat

/-- What `read` and `pread` do: give up to `n` bytes, or fail. -/
inductive ReadResult
  | upTo (n : Nat)
  | failed (errno : Errno)

/-- A call of `read` or `pread`, and what others have appended to the file before. -/
structure ReadCall where
  appended : List UInt8
  result : ReadResult

namespace OpenFile

variable (file : OpenFile)

def append (bytes : List UInt8) : OpenFile := { file with data := file.data ++ bytes }

/-- `pread(fd, buf, count, offset)` -/
def pread (count offset : Nat) : ReadResult → Except Errno (List UInt8)
  | .upTo n => .ok ((file.data.drop offset).take (min (max 1 n) count))
  | .failed errno => .error errno

/-- `read(fd, buf, count)` -/
def read (count : Nat) (r : ReadResult) : Except Errno (List UInt8 × OpenFile) := do
  let bytes ← file.pread count file.offset r
  return (bytes, { file with offset := file.offset + bytes.length })

end OpenFile

/-! ## The functions -/

def kBufferSize : Nat := 64 * 1024

/-- `class ReadSmallFile` -/
structure ReadSmallFile where
  fd : Int
  err : Int
  buf : Memory UInt8 kBufferSize

/-- An access outside of its block, or `std::length_error`. -/
inductive ReadFault
  | bounds (e : OutOfBounds)
  | lengthError
  deriving DecidableEq, Repr

/-- What the pointer arguments of `readToString` lead to, `none` for `nullptr`. -/
structure Out where
  content : List UInt8
  fileSize : Option Int
  modifyTime : Option Int
  createTime : Option Int

inductive FileType
  | regular
  | directory
  | other
  deriving DecidableEq

/-- `struct stat` -/
structure Stat where
  mode : FileType
  size : Int
  mtime : Int
  ctime : Int

namespace ReadSmallFile

/-- `ReadSmallFile(filename)`: `r` is what `open` returns, `buf` what stood in the memory. -/
def new (r : Except Errno Nat) (buf : Memory UInt8 kBufferSize) :
    Except OutOfBounds ReadSmallFile := do
  let buf ← buf.write 0 [0]
  match r with
  | .ok fd => return ⟨fd, 0, buf⟩
  | .error errno => return ⟨-1, errno, buf⟩

/-- `content->reserve(n)`, whose parameter is a `size_t`. -/
def reserve (n : Int) : Except ReadFault Unit :=
  check (toUnsigned 64 n ≤ Base.maxSize) .lengthError

/-- `*modifyTime` and `*createTime`, where they are asked for. -/
def setTimes (out : Out) (statbuf : Stat) : Out :=
  { out with
    modifyTime := out.modifyTime.map fun _ => statbuf.mtime
    createTime := out.createTime.map fun _ => statbuf.ctime }

/-- The part of `readToString` with `fstat`, whose result is `r`: what it leaves behind the
pointers, and `err`. -/
def fstat (maxSize : Int) (out : Out) (err : Int) (r : Except Errno Stat) :
    Except ReadFault (Out × Int) :=
  if out.fileSize.isSome = true then
    match r with
    | .error errno => .ok (out, errno)
    | .ok statbuf =>
        match statbuf.mode with
        | .regular => do
            reserve (narrow 32 (min maxSize statbuf.size))
            return (setTimes { out with fileSize := some statbuf.size } statbuf, err)
        | .directory => .ok (setTimes out statbuf, EISDIR)
        | .other => .ok (setTimes out statbuf, err)
  else .ok (out, err)

/-- The variables of the loop of `readToString`. -/
structure Reading where
  buf : Memory UInt8 kBufferSize
  file : OpenFile
  content : List UInt8
  err : Int

/-- The body of the loop: whether it goes on, and what it leaves. -/
def Reading.body (r : Reading) (maxSize : Nat) (c : ReadCall) :
    Except OutOfBounds (Bool × Reading) :=
  match (r.file.append c.appended).read (min (maxSize - r.content.length) kBufferSize)
    c.result with
  | .error errno =>
      .ok (false, { r with file := r.file.append c.appended, err := errno })
  | .ok (bytes, file) => do
      let buf ← r.buf.write 0 bytes
      if 0 < bytes.length then
        let bytes ← Memory.read buf.cells bytes.length
        return (true, { r with buf := buf, file := file, content := r.content ++ bytes })
      else
        return (false, { r with buf := buf, file := file })

/-- The loop of `readToString`, with the results of the calls to come. -/
def readLoop (maxSize : Nat) : List ReadCall → Reading → Except OutOfBounds (Option Reading)
  | [], r => .ok (if r.content.length < maxSize then none else some r)
  | c :: calls, r =>
      if r.content.length < maxSize then do
        let (goesOn, r) ← r.body maxSize c
        if goesOn = true then readLoop maxSize calls r else return some r
      else .ok (some r)

/-- What `readToString` leaves, and the `err` that it returns. -/
structure Returned where
  reader : ReadSmallFile
  file : OpenFile
  out : Out
  err : Int

/-- `readToString(maxSize, content, fileSize, modifyTime, createTime)`; still in its loop where
the results do not suffice. -/
def readToString (f : ReadSmallFile) (file : OpenFile) (maxSize : Int) (out : Out)
    (stat : Except Errno Stat) (calls : List ReadCall) : Except ReadFault (Option Returned) :=
  if 0 ≤ f.fd then do
    let (out, err) ← fstat maxSize { out with content := [] } f.err stat
    let r ← nested .bounds (readLoop (toUnsigned 64 maxSize) calls ⟨f.buf, file, [], err⟩)
    return r.map fun r =>
      ⟨{ f with buf := r.buf }, r.file, { out with content := r.content }, r.err⟩
  else return some ⟨f, file, out, f.err⟩

/-- `readToBuffer(size)`: what it leaves, what `size` leads to, and the `err` that it returns. -/
def readToBuffer (f : ReadSmallFile) (file : OpenFile) (size : Option Int) (c : ReadCall) :
    Except OutOfBounds (ReadSmallFile × OpenFile × Option Int × Int) :=
  if 0 ≤ f.fd then
    match (file.append c.appended).pread (kBufferSize - 1) 0 c.result with
    | .error errno => .ok (f, file.append c.appended, size, errno)
    | .ok bytes => do
        let buf ← f.buf.write 0 bytes
        let buf ← buf.write bytes.length [0]
        return ({ f with buf := buf }, file.append c.appended,
          size.map fun _ => narrow 32 bytes.length, f.err)
  else .ok (f, file, size, f.err)

end ReadSmallFile

/-- `readFile(filename, maxSize, content, fileSize, modifyTime, createTime)` -/
def readFile (r : Except Errno Nat) (buf : Memory UInt8 kBufferSize) (file : OpenFile)
    (maxSize : Int) (out : Out) (stat : Except Errno Stat) (calls : List ReadCall) :
    Except ReadFault (Option ReadSmallFile.Returned) := do
  let f ← nested .bounds (ReadSmallFile.new r buf)
  f.readToString file maxSize out stat calls

/-! ## One call of `read` -/

namespace ReadSmallFile

/-- `content` is what the descriptor has passed since its position was `start`. -/
structure Reading.From (start : Nat) (r : Reading) : Prop where
  le : start ≤ r.file.offset
  le_length : r.file.offset ≤ r.file.data.length
  content : r.content = segment r.file.data start r.file.offset

variable {start maxSize count : Nat} {r r' : Reading} {c : ReadCall} {calls : List ReadCall}

theorem Reading.From.length_content (h : r.From start) :
    r.content.length = r.file.offset - start := by
  rw [h.content, length_segment _ _ _ h.le_length]

/-- The bytes behind the position, at least one of them if there is one. -/
theorem pread_upTo (file : OpenFile) (count offset n : Nat) :
    ∃ k, file.pread count offset (.upTo n) =
        .ok (segment file.data offset (offset + k)) ∧ k ≤ count ∧
      (offset ≤ file.data.length → offset + k ≤ file.data.length) ∧
      (0 < count → (k = 0 ↔ file.data.length ≤ offset)) := by
  refine ⟨min (min (max 1 n) count) (file.data.length - offset), ?_, by omega, by omega, by omega⟩
  rw [OpenFile.pread, Lib.segment, List.drop_take, Nat.add_sub_cancel_left, ← List.length_drop,
    ← List.take_eq_take_min]

/-- `read` moves the position over what it gives. -/
theorem body_ok {bytes : List UInt8} {file : OpenFile}
    (hread : (r.file.append c.appended).read (min (maxSize - r.content.length) kBufferSize)
      c.result = .ok (bytes, file)) (hlen : bytes.length ≤ kBufferSize) :
    ∃ buf, r.body maxSize c =
      .ok (decide (0 < bytes.length), ⟨buf, file, r.content ++ bytes, r.err⟩) := by
  obtain ⟨buf, hbuf⟩ := Memory.exists_write r.buf 0 bytes (by omega)
  refine ⟨buf, ?_⟩
  simp only [Reading.body, hread, hbuf, ok_bind]
  by_cases hpos : 0 < bytes.length
  · have htake : buf.cells.take bytes.length = bytes := by
      have hwritten := Memory.take_write hbuf
      rwa [Nat.zero_add, List.take_zero, List.nil_append] at hwritten
    have hcells : bytes.length ≤ buf.cells.length := by
      rw [buf.length_cells]
      exact hlen
    rw [if_pos hpos, Memory.read_ok hcells, htake, decide_eq_true hpos]
    rfl
  · have hnil : bytes = [] := List.length_eq_zero_iff.mp (by omega)
    rw [if_neg hpos, decide_eq_false hpos, hnil, List.append_nil]
    rfl

/-- What others append does not change what has been read. -/
theorem Reading.From.append (h : r.From start) (bytes : List UInt8) (err : Int) :
    Reading.From start { r with file := r.file.append bytes, err := err } where
  le := h.le
  le_length := by
    show r.file.offset ≤ (r.file.data ++ bytes).length
    rw [List.length_append]
    exact Nat.le_add_right_of_le h.le_length
  content := by
    show r.content = segment (r.file.data ++ bytes) start r.file.offset
    rw [h.content, Lib.segment, Lib.segment, List.take_append_of_le_length h.le_length]

/-- Going on by `k` bytes. -/
theorem Reading.From.advance {k : Nat} (h : r.From start)
    (hk : r.file.offset + k ≤ r.file.data.length) (buf : Memory UInt8 kBufferSize) :
    Reading.From start { r with
      buf := buf
      file := { r.file with offset := r.file.offset + k }
      content := r.content ++ segment r.file.data r.file.offset (r.file.offset + k) } where
  le := Nat.le_add_right_of_le h.le
  le_length := hk
  content := by
    show r.content ++ _ = segment r.file.data start (r.file.offset + k)
    rw [h.content, segment_append _ h.le (Nat.le_add_right _ _)]

/-- One iteration: it ends with an error, at the end of the file, or with more of the file. -/
theorem Reading.From.body (h : r.From start) (hless : r.content.length < maxSize) :
    ∃ goesOn r', r.body maxSize c = .ok (goesOn, r') ∧ r'.From start ∧
      r'.file.data = r.file.data ++ c.appended ∧ r'.content.length ≤ maxSize ∧
      (if goesOn = true then r'.err = r.err ∧ r.content.length < r'.content.length
        else 0 < r'.err ∨ r'.err = r.err ∧ r'.file.offset = r'.file.data.length) := by
  cases hres : c.result with
  | failed errno =>
      refine ⟨false, _, ?_, h.append c.appended errno, rfl, Nat.le_of_lt hless, Or.inl errno.2⟩
      rw [Reading.body, hres]
      rfl
  | upTo n =>
      have happ := h.append c.appended r.err
      have hsize : 0 < kBufferSize := by decide
      obtain ⟨k, hpread, hk, hin, hend⟩ := pread_upTo (r.file.append c.appended)
        (min (maxSize - r.content.length) kBufferSize) r.file.offset n
      have hle := hin happ.le_length
      have hlen : (segment (r.file.append c.appended).data r.file.offset
          (r.file.offset + k)).length = k := by
        rw [length_segment _ _ _ hle, Nat.add_sub_cancel_left]
      obtain ⟨buf, hok⟩ := @body_ok maxSize r c _ _ (by
        rw [OpenFile.read, hres]
        show (OpenFile.pread _ _ r.file.offset _ >>= _) = _
        rw [hpread, ok_bind, hlen]
        rfl) (by rw [hlen]; omega)
      refine ⟨_, _, hok, happ.advance hle buf, rfl, ?_, ?_⟩
      · show (r.content ++ _).length ≤ maxSize
        rw [List.length_append, hlen]
        omega
      · rw [hlen]
        by_cases hpos : 0 < k
        · rw [if_pos (decide_eq_true hpos)]
          refine ⟨rfl, ?_⟩
          show r.content.length < (r.content ++ _).length
          rw [List.length_append, hlen]
          omega
        · have hzero : k = 0 := by omega
          rw [if_neg (by simp [hpos])]
          refine Or.inr ⟨rfl, ?_⟩
          have hpast := (hend (by omega)).mp hzero
          have hbound := happ.le_length
          show r.file.offset + k = (r.file.append c.appended).data.length
          rw [hzero]
          exact Nat.le_antisymm hbound hpast

/-! ## The loop -/

/-- How the loop ends: `readToString` returns 0 only if it has read `maxSize` bytes or is at the
end of the file. -/
structure Reading.Ended (start maxSize : Nat) (calls : List ReadCall) (r r' : Reading) : Prop where
  progress : r'.From start
  grown : ∃ made, made <+: calls ∧
    r'.file.data = r.file.data ++ (made.map ReadCall.appended).flatten
  le : r'.content.length ≤ maxSize
  done : 0 < r'.err ∨ r'.err = r.err ∧
    (r'.content.length = maxSize ∨ r'.file.offset = r'.file.data.length)

/-- The loop ends where `maxSize` bytes have been read. -/
theorem Reading.ended_full (h : r.From start) (hle : r.content.length ≤ maxSize)
    (hfull : maxSize ≤ r.content.length) : Reading.Ended start maxSize calls r r where
  progress := h
  grown := ⟨[], List.nil_prefix, by rw [List.map_nil, List.flatten_nil, List.append_nil]⟩
  le := hle
  done := Or.inr ⟨rfl, Or.inl (Nat.le_antisymm hle hfull)⟩

theorem readLoop_spec (h : r.From start) (hle : r.content.length ≤ maxSize) :
    ∃ o, readLoop maxSize calls r = .ok o ∧
      (∀ r', o = some r' → Reading.Ended start maxSize calls r r') ∧
      (maxSize - r.content.length ≤ calls.length → o ≠ none) := by
  induction calls generalizing r with
  | nil =>
      refine ⟨_, rfl, ?_, ?_⟩
      · intro r' hr'
        split at hr'
        · cases hr'
        · cases hr'
          exact Reading.ended_full h hle (by omega)
      · intro henough
        rw [List.length_nil] at henough
        rw [if_neg (by omega)]
        exact Option.some_ne_none _
  | cons c calls ih =>
      rw [readLoop]
      by_cases hless : r.content.length < maxSize
      · obtain ⟨goesOn, r₁, hbody, hfrom, hdata, hle₁, hstep⟩ := h.body hless (c := c)
        rw [if_pos hless, hbody, ok_bind]
        cases goesOn with
        | true =>
            obtain ⟨herr, hmore⟩ := hstep
            obtain ⟨o, ho, hend, hdone⟩ := ih hfrom hle₁
            refine ⟨o, ho, ?_, ?_⟩
            · intro r' hr'
              have he := hend r' hr'
              obtain ⟨made, hmade, hdata'⟩ := he.grown
              refine ⟨he.progress, ⟨c :: made, ?_, ?_⟩, he.le, herr ▸ he.done⟩
              · exact List.cons_prefix_cons.mpr ⟨rfl, hmade⟩
              · rw [hdata', hdata, List.map_cons, List.flatten_cons, List.append_assoc]
            · intro henough
              apply hdone
              rw [List.length_cons] at henough
              omega
        | false =>
            refine ⟨_, rfl, ?_, fun _ => Option.some_ne_none _⟩
            intro r' hr'
            cases hr'
            refine ⟨hfrom, ⟨[c], ?_, ?_⟩, hle₁, ?_⟩
            · exact List.cons_prefix_cons.mpr ⟨rfl, List.nil_prefix⟩
            · rw [hdata, List.map_singleton, List.flatten_singleton]
            rcases hstep with herr | ⟨herr, hend⟩
            · exact Or.inl herr
            · exact Or.inr ⟨herr, Or.inr hend⟩
      · rw [if_neg hless]
        refine ⟨_, rfl, ?_, fun _ => Option.some_ne_none _⟩
        intro r' hr'
        cases hr'
        exact Reading.ended_full h hle (by omega)

/-! ## The calls -/

variable {f f' : ReadSmallFile} {file : OpenFile} {out out' : Out} {err err' : Int}
  {stat : Except Errno Stat} {ret : Returned} {size : Int}

/-- The file is open and `err_` is 0, or it is not and `err_` says why. -/
structure Valid (f : ReadSmallFile) : Prop where
  nonneg : 0 ≤ f.err
  opened : f.err = 0 ↔ 0 ≤ f.fd

theorem valid_new {r : Except Errno Nat} {buf : Memory UInt8 kBufferSize}
    (h : new r buf = .ok f) : f.Valid := by
  obtain ⟨buf', -, h⟩ := bind_eq_ok.mp h
  cases r with
  | ok fd =>
      cases h
      exact ⟨Int.le_refl 0, iff_of_true rfl (Int.natCast_nonneg fd)⟩
  | error errno =>
      cases h
      have hpos := errno.2
      have hclosed : ¬ (0 : Int) ≤ -1 := by decide
      exact ⟨Int.le_of_lt hpos, iff_of_false (Int.ne_of_gt hpos) hclosed⟩

/-- The argument of `reserve` is too long for a string exactly if `maxSize` is negative. -/
theorem reserve_eq {n : Int} (hn : Fits 32 n) (hsize : 0 ≤ size) :
    reserve (narrow 32 (min n size)) = if n < 0 then .error .lengthError else .ok () := by
  have hrange := fits_32.mp hn
  have hfits : Fits 32 (min n size) := fits_32.mpr ⟨by omega, by omega⟩
  have hmod : (toUnsigned 64 (min n size) : Int) = min n size % (2 ^ 64 : Nat) :=
    cast_toUnsigned 64 _
  have hmax : Base.maxSize = 2 ^ 63 - 1 := rfl
  rw [reserve, narrow_eq (by decide) hfits]
  by_cases hneg : n < 0
  · rw [if_pos hneg, check_error (by omega)]
  · rw [if_neg hneg, check_ok (by omega)]

/-- Where `fstat` makes `readToString` throw. -/
def TooLong (n : Int) (out : Out) (stat : Except Errno Stat) : Prop :=
  n < 0 ∧ out.fileSize.isSome = true ∧ ∃ statbuf, stat = .ok statbuf ∧ statbuf.mode = .regular

theorem fstat_spec {n : Int} (hn : Fits 32 n)
    (hstat : ∀ statbuf, stat = .ok statbuf → 0 ≤ statbuf.size) :
    (TooLong n out stat ∧ fstat n out err stat = .error .lengthError) ∨
    (¬ TooLong n out stat ∧ ∃ out' err', fstat n out err stat = .ok (out', err') ∧
      out'.content = out.content ∧ (err' = err ∨ 0 < err')) := by
  unfold fstat
  by_cases hasked : out.fileSize.isSome = true
  · rw [if_pos hasked]
    cases stat with
    | error errno =>
        refine Or.inr ⟨?_, out, errno, rfl, rfl, Or.inr errno.2⟩
        rintro ⟨-, -, statbuf, heq, -⟩
        cases heq
    | ok statbuf =>
        have hsize := hstat statbuf rfl
        have hno : statbuf.mode ≠ .regular → ¬ TooLong n out (.ok statbuf) := by
          rintro hne ⟨-, -, _, heq, hmode⟩
          rw [← Except.ok.inj heq] at hmode
          exact hne hmode
        cases hmode : statbuf.mode with
        | regular =>
            simp only [hmode, reserve_eq hn hsize]
            by_cases hneg : n < 0
            · rw [if_pos hneg]
              exact Or.inl ⟨⟨hneg, hasked, statbuf, rfl, hmode⟩, rfl⟩
            · rw [if_neg hneg]
              exact Or.inr ⟨fun h => hneg h.1, _, _, rfl, rfl, Or.inl rfl⟩
        | directory =>
            simp only [hmode]
            exact Or.inr ⟨hno (by rw [hmode]; decide), _, _, rfl, rfl, Or.inr EISDIR.2⟩
        | other =>
            simp only [hmode]
            exact Or.inr ⟨hno (by rw [hmode]; decide), _, _, rfl, rfl, Or.inl rfl⟩
  · rw [if_neg hasked]
    exact Or.inr ⟨fun h => hasked h.2.1, _, _, rfl, rfl, Or.inl rfl⟩

/-- What a call of `readToString` has done to an open file. -/
structure Read (f : ReadSmallFile) (file : OpenFile) (n : Int) (calls : List ReadCall)
    (ret : Returned) : Prop where
  fd : ret.reader.fd = f.fd
  err : ret.reader.err = f.err
  ended : ∃ err, (err = 0 ∨ 0 < err) ∧
    Reading.Ended file.offset (toUnsigned 64 n) calls ⟨f.buf, file, [], err⟩
      ⟨ret.reader.buf, ret.file, ret.out.content, ret.err⟩

theorem readToString_spec {n : Int} (out : Out) (calls : List ReadCall) (hf : f.Valid)
    (hopen : 0 ≤ f.fd) (hle : file.offset ≤ file.data.length) (hn : Fits 32 n)
    (hstat : ∀ statbuf, stat = .ok statbuf → 0 ≤ statbuf.size) :
    (TooLong n out stat ∧ f.readToString file n out stat calls = .error .lengthError) ∨
    (¬ TooLong n out stat ∧ ∃ o, f.readToString file n out stat calls = .ok o ∧
      (∀ ret, o = some ret → Read f file n calls ret) ∧
      (toUnsigned 64 n ≤ calls.length → o ≠ none)) := by
  have hfrom (err : Int) : Reading.From file.offset ⟨f.buf, file, [], err⟩ :=
    ⟨Nat.le_refl _, hle, (segment_self _ _).symm⟩
  rw [readToString, if_pos hopen]
  rcases @fstat_spec { out with content := [] } f.err stat n hn hstat with
    ⟨hlong, hok⟩ | ⟨hshort, out', err', hok, -, herr⟩
  · rw [hok]
    exact Or.inl ⟨hlong, rfl⟩
  · rw [hf.opened.mpr hopen] at herr
    obtain ⟨o, ho, hend, hdone⟩ :=
      @readLoop_spec file.offset _ _ calls (hfrom err') (Nat.zero_le (toUnsigned 64 n))
    simp only [hok, ok_bind, ho, nested_ok, pure_eq_ok]
    refine Or.inr ⟨hshort, _, rfl, ?_, ?_⟩
    · intro ret hret
      obtain ⟨r, hr, rfl⟩ := Option.map_eq_some_iff.mp hret
      exact ⟨rfl, rfl, err', herr, hend r hr⟩
    · intro henough
      rw [ne_eq, Option.map_eq_none_iff]
      exact hdone henough

/-- What `readToBuffer` does to an open file: the buffer has the first bytes and a NUL. -/
theorem readToBuffer_spec (hf : f.Valid) (hopen : 0 ≤ f.fd) (size : Option Int) (c : ReadCall) :
    ∃ f' size' err, f.readToBuffer file size c = .ok (f', file.append c.appended, size', err) ∧
      f'.fd = f.fd ∧ f'.err = f.err ∧ (0 < err ∨ err = 0 ∧ ∃ n, n < kBufferSize ∧
        size' = size.map (fun _ => (n : Int)) ∧
        f'.buf.cells.take (n + 1) = (file.data ++ c.appended).take n ++ [0] ∧
        (n = 0 → file.data ++ c.appended = [])) := by
  unfold readToBuffer
  rw [if_pos hopen]
  cases c.result with
  | failed errno => exact ⟨f, size, errno, rfl, rfl, rfl, Or.inl errno.2⟩
  | upTo n =>
      have hsize : kBufferSize = 65536 := rfl
      obtain ⟨k, hpread, hk, hin, hend⟩ := pread_upTo (file.append c.appended)
        (kBufferSize - 1) 0 n
      have hle := hin (Nat.zero_le _)
      rw [Nat.zero_add] at hpread hle
      have hbytes : segment (file.append c.appended).data 0 k =
          (file.data ++ c.appended).take k := rfl
      have hlen : ((file.data ++ c.appended).take k).length = k := List.length_take_of_le hle
      obtain ⟨buf, hbuf⟩ := Memory.exists_write f.buf 0 ((file.data ++ c.appended).take k)
        (by rw [hlen]; omega)
      obtain ⟨buf', hbuf'⟩ := Memory.exists_write buf k [0]
        (by rw [List.length_singleton]; omega)
      refine ⟨{ f with buf := buf' }, size.map fun _ => narrow 32 k, f.err, ?_, rfl, rfl,
        Or.inr ⟨hf.opened.mpr hopen, k, by omega, ?_, ?_, ?_⟩⟩
      · rw [hpread]
        simp only [hbytes, hbuf, ok_bind, hlen, hbuf']
        rfl
      · rw [narrow_eq (by decide) (fits_32.mpr ⟨by omega, by omega⟩)]
      · have hwritten := Memory.take_write hbuf'
        rw [List.length_singleton] at hwritten
        have hbefore := Memory.take_write hbuf
        rw [Nat.zero_add, hlen, List.take_zero, List.nil_append] at hbefore
        rw [hwritten, hbefore]
      · intro hzero
        have hpast := (hend (by omega)).mp hzero
        exact List.length_eq_zero_iff.mp (Nat.le_zero.mp hpast)

/-! ## Runs -/

/-- A `ReadSmallFile` and its file, what the last call has left, and what the calls of
`readToString` on an open file have put into `content`. -/
structure World where
  reader : ReadSmallFile
  file : OpenFile
  out : Out
  size : Option Int
  err : Int
  contents : List (List UInt8)

/-- What the owner of the object does, and what others do to the file. -/
inductive Action
  | append (bytes : List UInt8)
  | readToString (maxSize : Int) (out : Out) (stat : Except Errno Stat) (calls : List ReadCall)
  | readToBuffer (size : Option Int) (c : ReadCall)

/-- A call of `readToString` has returned. -/
def World.returned (w : World) (ret : Returned) : World :=
  { w with
    reader := ret.reader
    file := ret.file
    out := ret.out
    err := ret.err
    contents := if 0 ≤ w.reader.fd then w.contents ++ [ret.out.content] else w.contents }

def World.step (w : World) : Action → Option (Except ReadFault World)
  | .append bytes => some (.ok { w with file := w.file.append bytes })
  | .readToString maxSize out stat calls =>
      match w.reader.readToString w.file maxSize out stat calls with
      | .error e => some (.error e)
      | .ok o => o.map fun ret => .ok (w.returned ret)
  | .readToBuffer size c =>
      match w.reader.readToBuffer w.file size c with
      | .error e => some (.error (.bounds e))
      | .ok (reader, file, size, err) =>
          some (.ok { w with reader := reader, file := file, size := size, err := err })

/-- The arguments are of their types, and a file has no negative size. -/
def Typed (_ : World) : Action → Prop
  | .readToString maxSize _ stat _ =>
      Fits 32 maxSize ∧ ∀ statbuf, stat = .ok statbuf → 0 ≤ statbuf.size
  | _ => True

/-- Runs of an object that has just been constructed, of a file that may be there or not. -/
def runs : System World Action ReadFault where
  init w := (∃ r buf, new r buf = .ok w.reader) ∧ w.file.offset = 0 ∧ w.contents = []
  step := World.step

/-- The calls of `readToString` have read the file up to the position. -/
structure World.Inv (w : World) : Prop where
  valid : w.reader.Valid
  le_length : w.file.offset ≤ w.file.data.length
  contents : w.contents.flatten = w.file.data.take w.file.offset

variable {w t : World} {a : Action}

theorem inv_start (h : runs.init w) : w.Inv := by
  obtain ⟨⟨r, buf, hnew⟩, hoffset, hcontents⟩ := h
  refine ⟨valid_new hnew, by rw [hoffset]; exact Nat.zero_le _, ?_⟩
  rw [hoffset, hcontents, List.take_zero]
  rfl

theorem Valid.congr (hf : f.Valid) (hfd : f'.fd = f.fd) (herr : f'.err = f.err) : f'.Valid where
  nonneg := herr ▸ hf.nonneg
  opened := by rw [hfd, herr]; exact hf.opened

/-- The content of a call goes on where those before it have ended. -/
theorem World.Inv.returned {n : Int} (h : w.Inv) (hopen : 0 ≤ w.reader.fd)
    (hr : Read w.reader w.file n calls ret) : (w.returned ret).Inv := by
  obtain ⟨hfd, herr, err, -, hend⟩ := hr
  obtain ⟨made, -, hdata⟩ := hend.grown
  have hfrom := hend.progress
  refine ⟨h.valid.congr hfd herr, hfrom.le_length, ?_⟩
  have hdata : ret.file.data = w.file.data ++ (made.map ReadCall.appended).flatten := hdata
  have hcontent : ret.out.content = segment ret.file.data w.file.offset ret.file.offset :=
    hfrom.content
  show (if 0 ≤ w.reader.fd then w.contents ++ [ret.out.content] else w.contents).flatten = _
  rw [if_pos hopen]
  calc (w.contents ++ [ret.out.content]).flatten
      = w.contents.flatten ++ ret.out.content := by
        rw [List.flatten_append, List.flatten_singleton]
    _ = ret.file.data.take w.file.offset ++ ret.out.content := by
        rw [h.contents, hdata, List.take_append_of_le_length h.le_length]
    _ = segment ret.file.data 0 w.file.offset ++
          segment ret.file.data w.file.offset ret.file.offset := by rw [hcontent]; rfl
    _ = ret.file.data.take ret.file.offset := segment_append _ (Nat.zero_le _) hfrom.le

/-- A call on a file that could not be opened returns why. -/
theorem readToString_closed (n : Int) (hclosed : ¬ 0 ≤ f.fd) :
    f.readToString file n out stat calls = .ok (some ⟨f, file, out, f.err⟩) := by
  rw [readToString, if_neg hclosed]
  rfl

/-- A call of `readToString`: it throws, or it goes on in the file. -/
theorem World.Inv.readToString {n : Int} (h : w.Inv) (out : Out) (calls : List ReadCall)
    (hn : Fits 32 n) (hstat : ∀ statbuf, stat = .ok statbuf → 0 ≤ statbuf.size) :
    (0 ≤ w.reader.fd ∧ TooLong n out stat ∧
      w.step (.readToString n out stat calls) = some (.error .lengthError)) ∨
    (¬ (0 ≤ w.reader.fd ∧ TooLong n out stat) ∧ ∃ o : Option World,
      w.step (.readToString n out stat calls) = o.map .ok ∧
      (toUnsigned 64 n ≤ calls.length → o ≠ none) ∧
      ∀ t, o = some t → t.Inv ∧ (t.err = 0 → t.contents = w.contents ++ [t.out.content] ∧
        t.out.content.length ≤ toUnsigned 64 n ∧
        (t.out.content.length = toUnsigned 64 n ∨ t.file.offset = t.file.data.length))) := by
  simp only [World.step]
  by_cases hopen : 0 ≤ w.reader.fd
  · rcases readToString_spec out calls h.valid hopen h.le_length hn hstat with
      ⟨hlong, hok⟩ | ⟨hshort, o, hok, hread, hdone⟩
    · rw [hok]
      exact Or.inl ⟨hopen, hlong, rfl⟩
    · rw [hok]
      refine Or.inr ⟨fun hand => hshort hand.2, o.map w.returned, ?_, ?_, ?_⟩
      · exact Option.map_map .. |>.symm
      · intro henough
        rw [ne_eq, Option.map_eq_none_iff]
        exact hdone henough
      · intro t ht
        obtain ⟨ret, hret, rfl⟩ := Option.map_eq_some_iff.mp ht
        have hr := hread ret hret
        refine ⟨h.returned hopen hr, ?_⟩
        intro herr
        obtain ⟨err, -, hend⟩ := hr.ended
        refine ⟨if_pos hopen, hend.le, ?_⟩
        rcases hend.done with hpos | ⟨-, hend⟩
        · exact absurd herr (Int.ne_of_gt hpos)
        · exact hend
  · rw [readToString_closed n hopen]
    refine Or.inr ⟨fun hand => hopen hand.1, some _, rfl, fun _ => Option.some_ne_none _, ?_⟩
    intro t ht
    cases ht
    refine ⟨⟨h.valid, h.le_length, ?_⟩, ?_⟩
    · show (if 0 ≤ w.reader.fd then w.contents ++ [out.content] else w.contents).flatten = _
      rw [if_neg hopen]
      exact h.contents
    · intro herr
      exact absurd (h.valid.opened.mp herr) hopen

/-- What others append stays behind the position. -/
theorem World.Inv.append (h : w.Inv) (bytes : List UInt8) :
    World.Inv { w with file := w.file.append bytes } where
  valid := h.valid
  le_length := by
    show w.file.offset ≤ (w.file.data ++ bytes).length
    rw [List.length_append]
    exact Nat.le_add_right_of_le h.le_length
  contents := by
    show w.contents.flatten = (w.file.data ++ bytes).take w.file.offset
    rw [h.contents, List.take_append_of_le_length h.le_length]

/-- A call of `readToBuffer` leaves the position alone. -/
theorem World.Inv.readToBuffer (h : w.Inv) (size : Option Int) (c : ReadCall) :
    ∃ t, w.step (.readToBuffer size c) = some (.ok t) ∧ t.Inv ∧
      (t.err = 0 → t.file.offset = w.file.offset ∧ ∃ n, n < kBufferSize ∧
        t.size = size.map (fun _ => (n : Int)) ∧
        t.reader.buf.cells.take (n + 1) = t.file.data.take n ++ [0] ∧
        (n = 0 → t.file.data = [])) := by
  simp only [World.step]
  by_cases hopen : 0 ≤ w.reader.fd
  · obtain ⟨f', size', err, hok, hfd, herr, hbuf⟩ := readToBuffer_spec h.valid hopen size c
    rw [hok]
    have happ := h.append c.appended
    refine ⟨_, rfl, ⟨h.valid.congr hfd herr, happ.le_length, happ.contents⟩, ?_⟩
    intro hzero
    rcases hbuf with hpos | ⟨-, n, hn, hsize, htake, hend⟩
    · exact absurd hzero (Int.ne_of_gt hpos)
    · exact ⟨rfl, n, hn, hsize, htake, hend⟩
  · have hok : w.reader.readToBuffer w.file size c =
        .ok (w.reader, w.file, size, w.reader.err) := if_neg hopen
    rw [hok]
    refine ⟨_, rfl, ⟨h.valid, h.le_length, h.contents⟩, ?_⟩
    intro hzero
    exact absurd (h.valid.opened.mp hzero) hopen

theorem World.Inv.next (h : w.Inv) (ha : Typed w a) (hn : runs.Next w a t) : t.Inv := by
  cases a with
  | append bytes =>
      cases hn
      exact h.append bytes
  | readToString n out stat calls =>
      have hn : w.step (.readToString n out stat calls) = some (.ok t) := hn
      rcases h.readToString out calls ha.1 ha.2 with
        ⟨-, -, hthrow⟩ | ⟨-, o, hok, -, hinv⟩
      · rw [hthrow] at hn
        cases hn
      · rw [hok] at hn
        obtain ⟨u, hu, hsame⟩ := Option.map_eq_some_iff.mp hn
        cases hsame
        exact (hinv t hu).1
  | readToBuffer size c =>
      obtain ⟨u, hok, hinv, -⟩ := h.readToBuffer size c
      have hn : w.step (.readToBuffer size c) = some (.ok t) := hn
      rw [hok] at hn
      cases hn
      exact hinv

theorem reachable_inv (h : runs.Reachable Typed w) : w.Inv :=
  h.invariant (fun _ h₀ => inv_start h₀) fun _ _ _ hi ha hn => hi.next ha hn

/-- A negative `maxSize` with the size of a regular file asked for. -/
def Throws (w : World) : Action → Prop
  | .readToString n out stat _ => 0 ≤ w.reader.fd ∧ TooLong n out stat
  | _ => False

theorem World.Inv.fails_iff (h : w.Inv) (ha : Typed w a) {e : ReadFault} :
    runs.Fails w a e ↔ e = .lengthError ∧ Throws w a := by
  cases a with
  | append bytes => exact iff_of_false nofun fun hand => hand.2
  | readToString n out stat calls =>
      show w.step (.readToString n out stat calls) = some (.error e) ↔ _
      rcases h.readToString out calls ha.1 ha.2 with
        ⟨hopen, hlong, hthrow⟩ | ⟨hno, o, hok, -⟩
      · rw [hthrow, Option.some.injEq, Except.error.injEq]
        constructor
        · rintro rfl
          exact ⟨rfl, hopen, hlong⟩
        · intro hand
          exact hand.1.symm
      · refine iff_of_false ?_ fun hand => hno hand.2
        rw [hok]
        intro heq
        obtain ⟨u, -, hsame⟩ := Option.map_eq_some_iff.mp heq
        cases hsame
  | readToBuffer size c =>
      obtain ⟨u, hok, -⟩ := h.readToBuffer size c
      refine iff_of_false ?_ fun hand => hand.2
      show ¬ w.step (.readToBuffer size c) = some (.error e)
      rw [hok]
      exact nofun

/-- In every run, whatever others append and however `read` falls short or fails:

* what the calls of `readToString` have put into `content`, errors included, is the file up to
  the position of the descriptor;
* a call that returns 0 has read at most `maxSize` bytes, and less only at the end of the file,
  and every call ends;
* a call of `readToBuffer` that returns 0 leaves the first bytes of the file in the buffer, with
  a NUL behind them, and does not move the position;
* nothing throws but `readToString` with a negative `maxSize` that is asked for the size of a
  regular file. -/
theorem reads_in_order (w : World) (h : runs.Reachable Typed w) :
    w.contents.flatten = w.file.data.take w.file.offset ∧
    (∀ n out stat calls, Typed w (.readToString n out stat calls) →
      (toUnsigned 64 n ≤ calls.length → runs.step w (.readToString n out stat calls) ≠ none) ∧
      ∀ t, runs.Next w (.readToString n out stat calls) t → t.err = 0 →
        t.contents = w.contents ++ [t.out.content] ∧ t.out.content.length ≤ toUnsigned 64 n ∧
          (t.out.content.length = toUnsigned 64 n ∨ t.file.offset = t.file.data.length)) ∧
    (∀ size c t, runs.Next w (.readToBuffer size c) t → t.err = 0 →
      t.file.offset = w.file.offset ∧ ∃ n, n < kBufferSize ∧
        t.size = size.map (fun _ => (n : Int)) ∧
        t.reader.buf.cells.take (n + 1) = t.file.data.take n ++ [0] ∧
        (n = 0 → t.file.data = [])) ∧
    ∀ a e, Typed w a → (runs.Fails w a e ↔ e = .lengthError ∧ Throws w a) := by
  have hinv := reachable_inv h
  refine ⟨hinv.contents, ?_, ?_, fun a e ha => hinv.fails_iff ha⟩
  · intro n out stat calls ha
    rcases hinv.readToString out calls ha.1 ha.2 with
      ⟨-, -, hthrow⟩ | ⟨-, o, hok, hdone, hnext⟩
    · refine ⟨fun _ hnone => ?_, fun t hn => ?_⟩
      · exact Option.some_ne_none _ (hthrow.symm.trans hnone)
      · exact absurd (hthrow.symm.trans hn) nofun
    · refine ⟨fun henough hnone => ?_, fun t hn => ?_⟩
      · exact hdone henough (Option.map_eq_none_iff.mp (hok.symm.trans hnone))
      · obtain ⟨u, hu, hsame⟩ := Option.map_eq_some_iff.mp (hok.symm.trans hn)
        cases hsame
        exact (hnext t hu).2
  · intro size c t hn
    obtain ⟨u, hok, -, hbuf⟩ := hinv.readToBuffer size c
    cases Option.some.inj (hok.symm.trans hn)
    exact hbuf

/-! ### Two reads of a short file -/

theorem next_returned {n : Int}
    (h : w.reader.readToString w.file n out stat calls = .ok (some ret)) :
    runs.Next w (.readToString n out stat calls) (w.returned ret) := by
  show w.step (.readToString n out stat calls) = _
  simp only [World.step, h]
  rfl

def sampleBuf : Memory UInt8 kBufferSize := ⟨List.replicate kBufferSize 0, List.length_replicate ..⟩

def sampleCall : ReadCall := ⟨[], .upTo 1⟩

/-- The loop reads two bytes, one at a time. -/
theorem readLoop_sample (buf : Memory UInt8 kBufferSize) : ∃ buf',
    readLoop 2 [sampleCall, sampleCall] ⟨buf, ⟨[97, 98, 99], 0⟩, [], 0⟩ =
      .ok (some ⟨buf', ⟨[97, 98, 99], 2⟩, [97, 98], 0⟩) := by
  have hone (byte : UInt8) : [byte].length ≤ kBufferSize := (by decide : 1 ≤ kBufferSize)
  have hfirst : ∃ buf₁, (⟨buf, ⟨[97, 98, 99], 0⟩, [], 0⟩ : Reading).body 2 sampleCall =
      .ok (true, ⟨buf₁, ⟨[97, 98, 99], 1⟩, [97], 0⟩) := body_ok rfl (hone 97)
  obtain ⟨buf₁, hbuf₁⟩ := hfirst
  have hsecond : ∃ buf₂, (⟨buf₁, ⟨[97, 98, 99], 1⟩, [97], 0⟩ : Reading).body 2 sampleCall =
      .ok (true, ⟨buf₂, ⟨[97, 98, 99], 2⟩, [97, 98], 0⟩) := body_ok rfl (hone 98)
  obtain ⟨buf₂, hbuf₂⟩ := hsecond
  refine ⟨buf₂, ?_⟩
  have hzero : ([] : List UInt8).length < 2 := by decide
  have hless : ([97] : List UInt8).length < 2 := by decide
  simp only [readLoop, if_pos hzero, hbuf₁, ok_bind, if_true, if_pos hless, hbuf₂]
  rfl

def sampleOut (content : List UInt8) : Out := ⟨content, none, none, none⟩

theorem readToString_sample (buf : Memory UInt8 kBufferSize) : ∃ buf',
    (⟨3, 0, buf⟩ : ReadSmallFile).readToString ⟨[97, 98, 99], 0⟩ 2 (sampleOut [])
      (.error EISDIR) [sampleCall, sampleCall] =
        .ok (some ⟨⟨3, 0, buf'⟩, ⟨[97, 98, 99], 2⟩, sampleOut [97, 98], 0⟩) := by
  obtain ⟨buf', hloop⟩ := readLoop_sample buf
  refine ⟨buf', ?_⟩
  have hopen : (0 : Int) ≤ 3 := by decide
  have hsize : toUnsigned 64 2 = 2 := rfl
  rw [readToString, if_pos hopen, hsize]
  simp only [fstat, sampleOut, Option.isSome_none, Bool.false_eq_true, if_false, ok_bind, hloop]
  rfl

def sampleStart (buf : Memory UInt8 kBufferSize) : World :=
  ⟨⟨3, 0, buf⟩, ⟨[97, 98, 99], 0⟩, sampleOut [], none, 0, []⟩

theorem new_sample : ∃ buf, new (.ok 3) sampleBuf = .ok ⟨3, 0, buf⟩ := by
  obtain ⟨buf, hbuf⟩ := Memory.exists_write sampleBuf 0 [0] (by decide)
  refine ⟨buf, ?_⟩
  rw [new, hbuf]
  rfl

theorem reads_in_order_sample : ∃ w : World, runs.Reachable Typed w ∧
    w.contents = [[97, 98]] ∧ w.file.offset = 2 ∧
      w.contents.flatten = w.file.data.take w.file.offset := by
  obtain ⟨buf, hnew⟩ := new_sample
  have hinit : runs.init (sampleStart buf) := ⟨⟨.ok 3, sampleBuf, hnew⟩, rfl, rfl⟩
  obtain ⟨buf', hcall⟩ := readToString_sample buf
  have hnext := next_returned (w := sampleStart buf) hcall
  have htyped : Typed (sampleStart buf) (.readToString 2 (sampleOut []) (.error EISDIR)
      [sampleCall, sampleCall]) := ⟨by decide, nofun⟩
  have hreach := (System.Reachable.of_init hinit).run (System.Run.single htyped hnext)
  exact ⟨_, hreach, rfl, rfl, (reads_in_order _ hreach).1⟩

end ReadSmallFile

/-! ## What was appended is read back -/

/-- Calls of `append`, each with the results of its calls of `fwrite_unlocked`. -/
def appendAll (strerror_tl : Int → List UInt8) (f : AppendFile) :
    List (List UInt8 × List Fwrite) → Except OutOfBounds (Option AppendFile)
  | [] => .ok (some f)
  | (line, results) :: lines => do
      match ← f.append strerror_tl results line line.length with
      | none => return none
      | some (f, _) => appendAll strerror_tl f lines

variable {strerror_tl : Int → List UInt8} {f f' : AppendFile}
  {lines : List (List UInt8 × List Fwrite)}

theorem appendAll_fp (hno : ∀ p ∈ lines, AppendFile.NoError p.2)
    (h : appendAll strerror_tl f lines = .ok (some f')) :
    f'.fp = f.fp ++ (lines.map Prod.fst).flatten := by
  induction lines generalizing f with
  | nil =>
      cases h
      rw [List.map_nil, List.flatten_nil, List.append_nil]
  | cons p lines ih =>
      obtain ⟨o, ho, h⟩ := bind_eq_ok.mp h
      cases o with
      | none => cases h
      | some g =>
          have hp := hno p List.mem_cons_self
          obtain ⟨hfp, -, -⟩ := AppendFile.append_whole (Nat.le_refl _) hp ho
          rw [ih (fun q hq => hno q (List.mem_cons_of_mem _ hq)) h, hfp, List.take_length,
            List.append_assoc, List.map_cons, List.flatten_cons]

/-- A file is written through an `AppendFile` whose stream has no error, and is opened when it
has been closed, perhaps while others go on to append. What `readFile` gives is the beginning of
the file, and with the result 0 it has what of the lines has room in `maxSize`. -/
theorem readFile_appended (strerror_tl : Int → List UInt8)
    (lines : List (List UInt8 × List Fwrite)) (hno : ∀ p ∈ lines, AppendFile.NoError p.2)
    (f : AppendFile) (hlines : appendAll strerror_tl AppendFile.new lines = .ok (some f))
    (fd : Nat) (buf : Memory UInt8 kBufferSize) (n : Int) (hn : Fits 32 n) (out : Out)
    (stat : Except Errno Stat) (hstat : ∀ statbuf, stat = .ok statbuf → 0 ≤ statbuf.size)
    (calls : List ReadCall) (ret : ReadSmallFile.Returned)
    (h : readFile (.ok fd) buf ⟨f.fp, 0⟩ n out stat calls = .ok (some ret)) :
    ret.out.content <+:
      (lines.map Prod.fst).flatten ++ (calls.map ReadCall.appended).flatten ∧
    (ret.err = 0 →
      (lines.map Prod.fst).flatten.take (toUnsigned 64 n) <+: ret.out.content) := by
  have hfp := appendAll_fp hno hlines
  obtain ⟨reader, hnew, hread⟩ := bind_eq_ok.mp h
  rw [nested_eq_ok] at hnew
  have hopen : 0 ≤ reader.fd := by
    obtain ⟨buf', -, hok⟩ := bind_eq_ok.mp hnew
    cases hok
    exact Int.natCast_nonneg fd
  have hstart : (⟨f.fp, 0⟩ : OpenFile).offset ≤ f.fp.length := Nat.zero_le _
  have hvalid := ReadSmallFile.valid_new hnew
  rcases ReadSmallFile.readToString_spec out calls hvalid hopen hstart hn hstat with
    ⟨-, hthrow⟩ | ⟨-, o, hok, hspec, -⟩
  · cases hthrow.symm.trans hread
  · cases hok.symm.trans hread
    obtain ⟨-, -, err, -, hend⟩ := hspec ret rfl
    obtain ⟨made, hmade, hdata⟩ := hend.grown
    have hfrom := hend.progress
    have hcontent : ret.out.content = ret.file.data.take ret.file.offset := hfrom.content
    have hfp : f.fp = (lines.map Prod.fst).flatten := hfp
    have hdata : ret.file.data = f.fp ++ (made.map ReadCall.appended).flatten := hdata
    rw [hfp] at hdata
    constructor
    · obtain ⟨rest, rfl⟩ := hmade
      rw [hcontent, List.map_append, List.flatten_append, ← List.append_assoc, ← hdata]
      exact (List.take_prefix _ _).trans (List.prefix_append _ _)
    · intro herr
      rcases hend.done with hpos | ⟨-, hfull | hatEnd⟩
      · exact absurd herr (Int.ne_of_gt hpos)
      · have hlen : ret.file.offset = toUnsigned 64 n := by
          rw [← hfull]
          show _ = ret.out.content.length
          rw [hcontent, List.length_take_of_le hfrom.le_length]
        rw [hcontent, hlen, hdata]
        exact (List.prefix_append _ _).take _
      · have hall : ret.out.content = ret.file.data := by
          rw [hcontent]
          exact List.take_of_length_le (Nat.le_of_eq hatEnd.symm)
        rw [hall, hdata]
        exact (List.take_prefix _ _).trans (List.prefix_append _ _)

/-- A line that the stream takes in two parts and that is read byte by byte. -/
theorem readFile_appended_sample : ∃ ret : ReadSmallFile.Returned,
    ret.out.content <+: [97, 98, 99] ∧ [97, 98] <+: ret.out.content := by
  obtain ⟨buf, hnew⟩ := ReadSmallFile.new_sample
  obtain ⟨buf', hcall⟩ := ReadSmallFile.readToString_sample buf
  let lines : List (List UInt8 × List Fwrite) := [([97, 98, 99], [⟨1, 0⟩, ⟨2, 0⟩])]
  have hno : ∀ p ∈ lines, AppendFile.NoError p.2 := by
    simp [lines, AppendFile.NoError]
  have hread : readFile (.ok 3) ReadSmallFile.sampleBuf ⟨[97, 98, 99], 0⟩ 2
      (ReadSmallFile.sampleOut []) (.error EISDIR)
      [ReadSmallFile.sampleCall, ReadSmallFile.sampleCall] =
        .ok (some ⟨⟨3, 0, buf'⟩, ⟨[97, 98, 99], 2⟩, ReadSmallFile.sampleOut [97, 98], 0⟩) := by
    rw [readFile, hnew, nested_ok, ok_bind, hcall]
  have hstat : ∀ statbuf, (.error EISDIR : Except Errno Stat) = .ok statbuf → 0 ≤ statbuf.size :=
    nofun
  have hboth := readFile_appended (fun _ => []) lines hno ⟨[97, 98, 99], 3⟩ rfl 3 _ 2
    (by decide) _ _ hstat _ _ hread
  exact ⟨_, hboth.1, hboth.2 rfl⟩

end Zing.Base.FileUtil
