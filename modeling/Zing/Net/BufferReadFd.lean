import Mathlib.Algebra.Order.Ring.Nat
import Zing.Net.Buffer

set_option autoImplicit false

/-! # `Buffer::readFd`

Reading from a socket into a buffer, and into an array on the stack in case there is more than
the buffer has room for. `readv` fills the vectors that it is passed one after the other; how
many bytes there are, or that it fails, is its answer. Nothing that was received is lost or put
in the wrong order (`readFd_spec`): what the array has taken is appended behind a buffer that is
full to its end, so that `append` grows it or moves all of it to the front.
-/

namespace Zing.Net

open Zing.Lib

/-- The answer of `readv`: the bytes received, or `-1` with an `errno`. -/
inductive ReadvResult
  | received (data : List Byte)
  | failed (errno : Nat)
  deriving DecidableEq, Repr

/-- What `readv` puts into each of the vectors, whose lengths are `iov`. -/
def scatter : List Nat → List Byte → List (List Byte)
  | [], _ => []
  | len :: iov, data => data.take len :: scatter iov (data.drop len)

/-- No more is received than there is room for. -/
def ReadvResult.Legal (iov : List Nat) : ReadvResult → Prop
  | received data => data.length ≤ iov.sum
  | failed _ => True

namespace Buffer

/-- `sizeof extrabuf` -/
def extrabufSize : Nat := 65536

/-- The lengths of the vectors that are passed to `readv`. -/
def iov (b : Buffer) : List Nat :=
  let iovcnt := if b.writableBytes < extrabufSize then 2 else 1
  [b.writableBytes, extrabufSize].take iovcnt

/-- `readFd`: the buffer, `*savedErrno` and the result. `extrabuf` is the array on the stack,
with what is in it at first. -/
def readFd (b : Buffer) (savedErrno : Nat) (extrabuf : Vector Byte extrabufSize)
    (r : ReadvResult) : Except Assertion (Buffer × Nat × Int) := do
  let writable := b.writableBytes
  match r with
  | .failed errno => return (b, errno, -1)
  | .received data =>
      let parts := scatter b.iov data
      let b := b.copyToWrite (parts.getD 0 [])
      let extrabuf := overwrite extrabuf.toList 0 (parts.getD 1 [])
      if data.length ≤ writable then
        return ({ b with writerIndex := b.writerIndex + data.length }, savedErrno, data.length)
      else
        let b := { b with writerIndex := b.buffer.length }
        let b ← b.append (extrabuf.take (data.length - writable))
        return (b, savedErrno, data.length)

variable {b : Buffer} {data : List Byte}

/-! ## What is in the vectors -/

/-- What the buffer takes, and what the array takes if there is more. -/
theorem scatter_iov (data : List Byte) :
    (scatter b.iov data).getD 0 [] = data.take b.writableBytes ∧
      (data.length ≤ b.iov.sum → b.writableBytes < data.length →
        (scatter b.iov data).getD 1 [] = data.drop b.writableBytes ∧
          data.length - b.writableBytes ≤ extrabufSize) := by
  rw [iov]
  split
  · refine ⟨rfl, fun hlen _ => ?_⟩
    have hsum : [b.writableBytes, extrabufSize].sum = b.writableBytes + extrabufSize := by simp
    have hroom : data.length - b.writableBytes ≤ extrabufSize := by
      have hle : data.length ≤ [b.writableBytes, extrabufSize].sum := hlen
      omega
    refine ⟨?_, hroom⟩
    show (data.drop b.writableBytes).take extrabufSize = data.drop b.writableBytes
    exact List.take_of_length_le (by rw [List.length_drop]; exact hroom)
  · refine ⟨rfl, fun hlen hlt => ?_⟩
    have hle : data.length ≤ [b.writableBytes].sum := hlen
    simp only [List.sum_singleton] at hle
    omega

/-- The front of the array after it was written to. -/
theorem take_overwrite_zero (l xs : List Byte) : (overwrite l 0 xs).take xs.length = xs := by
  have hself := segment_overwrite_self l 0 xs (Nat.zero_le _)
  rw [Lib.segment, List.drop_zero, Nat.zero_add] at hself
  exact hself

/-! ## The function -/

/-- What `readFd` leaves behind on the answer `r`. -/
def ReadsFd (b b' : Buffer) (savedErrno savedErrno' : Nat) (n : Int) : ReadvResult → Prop
  | .received data => b'.readable = b.readable ++ data ∧ savedErrno' = savedErrno ∧
      n = data.length
  | .failed errno => b' = b ∧ savedErrno' = errno ∧ n = -1

/-- Reading into a buffer preserves the stream. Whatever `readv` answers to the vectors that it
is passed, no assertion fails and the buffer is well-formed again. The bytes received, and no
others, are behind those that were readable before, and the result is their number; or the
buffer is as it was, and `*savedErrno` is set. -/
theorem readFd_spec (b : Buffer) (h : b.WF) (savedErrno : Nat)
    (extrabuf : Vector Byte extrabufSize) (r : ReadvResult) (hr : r.Legal b.iov) :
    ∃ b' savedErrno' n, b.readFd savedErrno extrabuf r = .ok (b', savedErrno', n) ∧ b'.WF ∧
      ReadsFd b b' savedErrno savedErrno' n r := by
  cases r with
  | failed errno => exact ⟨b, errno, -1, rfl, h, rfl, rfl, rfl⟩
  | received data =>
      have hle : data.length ≤ b.iov.sum := hr
      obtain ⟨hfirst, hsecond⟩ := scatter_iov (b := b) data
      simp only [readFd, hfirst]
      by_cases hfits : data.length ≤ b.writableBytes
      · have hall : data.take b.writableBytes = data := List.take_of_length_le hfits
        obtain ⟨-, hwf, hread⟩ := copyToWrite_commit h hfits
        rw [if_pos hfits, hall]
        exact ⟨_, _, _, rfl, hwf, hread, rfl, rfl⟩
      · obtain ⟨hrest, hextra⟩ := hsecond hle (Nat.lt_of_not_le hfits)
        have hlen : (data.take b.writableBytes).length = b.writableBytes :=
          List.length_take_of_le (Nat.le_of_not_le hfits)
        obtain ⟨hsize, hwf, hread⟩ := copyToWrite_commit h (Nat.le_of_eq hlen)
        -- the buffer is full to the end of its vector
        have hend : b.writerIndex + (data.take b.writableBytes).length
            = (b.copyToWrite (data.take b.writableBytes)).buffer.length := by
          have hw := h.writer_le
          rw [hsize, hlen, writableBytes]
          omega
        rw [hend] at hwf hread
        have htake : (overwrite extrabuf.toList 0 (data.drop b.writableBytes)).take
            (data.length - b.writableBytes) = data.drop b.writableBytes := by
          rw [← List.length_drop]
          exact take_overwrite_zero _ _
        obtain ⟨b', hb', hwf', hread', -⟩ := append_spec hwf (data.drop b.writableBytes)
        rw [if_neg hfits, hrest, htake, hb', ok_bind]
        refine ⟨b', savedErrno, data.length, rfl, hwf', ?_, rfl, rfl⟩
        calc b'.readable
            = (b.readable ++ data.take b.writableBytes) ++ data.drop b.writableBytes := by
              rw [hread', hread]
          _ = b.readable ++ data := by rw [List.append_assoc, List.take_append_drop]

/-- More is received than there is room for. -/
theorem readFd_spec_sample : ∃ b' e n,
    (new 4).readFd 0 (Vector.replicate _ 0) (.received [1, 2, 3, 4, 5, 6]) = .ok (b', e, n) ∧
      b'.readable = [1, 2, 3, 4, 5, 6] ∧ n = 6 := by
  obtain ⟨b', e, n, hok, -, hread, -, hn⟩ := readFd_spec (new 4) (new_wf 4) 0
    (Vector.replicate _ 0) (.received [1, 2, 3, 4, 5, 6]) (show 6 ≤ (new 4).iov.sum by decide)
  rw [new_readable, List.nil_append] at hread
  exact ⟨b', e, n, hok, hread, hn⟩

end Buffer

end Zing.Net
