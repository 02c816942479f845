import Zing.Lib.CInt

set_option autoImplicit false

/-! # Integers in memory

A host stores the bytes of an integer with the most significant one first (big-endian) or last
(little-endian). `htobe` and `betoh` are the functions of `<endian.h>` between the order of the
host and big-endian; what they are for is that, on either host, the bytes stored are those of
`bigEndian` (`store_htobe`), and loading gives back what these bytes stand for (`betoh_load`).
-/

namespace Zing.Lib

/-- The bytes of the number `x` of `n` bytes, the most significant one first. -/
def bigEndian : Nat → Nat → List UInt8
  | 0, _ => []
  | n + 1, x => UInt8.ofNat (x / 256 ^ n) :: bigEndian n x

/-- The number that bytes stand for, if the first is the most significant one. -/
def ofBigEndian : List UInt8 → Nat
  | [] => 0
  | b :: bs => b.toNat * 256 ^ bs.length + ofBigEndian bs

@[simp] theorem length_bigEndian (n x : Nat) : (bigEndian n x).length = n := by
  induction n with
  | zero => rfl
  | succ n ih => rw [bigEndian, List.length_cons, ih]

theorem ofBigEndian_lt (bs : List UInt8) : ofBigEndian bs < 256 ^ bs.length := by
  induction bs with
  | nil => simp [ofBigEndian]
  | cons b bs ih =>
      have hb := b.toNat_lt
      have hle : (b.toNat + 1) * 256 ^ bs.length ≤ 256 * 256 ^ bs.length :=
        Nat.mul_le_mul_right _ hb
      rw [ofBigEndian, List.length_cons, Nat.pow_succ']
      calc b.toNat * 256 ^ bs.length + ofBigEndian bs
          < b.toNat * 256 ^ bs.length + 256 ^ bs.length := by omega
        _ = (b.toNat + 1) * 256 ^ bs.length := by ring
        _ ≤ 256 * 256 ^ bs.length := hle

theorem ofBigEndian_bigEndian (n x : Nat) : ofBigEndian (bigEndian n x) = x % 256 ^ n := by
  induction n with
  | zero => rw [bigEndian, ofBigEndian, Nat.pow_zero, Nat.mod_one]
  | succ n ih =>
      have hbyte : (UInt8.ofNat (x / 256 ^ n)).toNat = x / 256 ^ n % 256 := UInt8.toNat_ofNat'
      rw [bigEndian, ofBigEndian, ih, length_bigEndian, hbyte]
      calc x / 256 ^ n % 256 * 256 ^ n + x % 256 ^ n
          = x % 256 ^ n + 256 ^ n * (x / 256 ^ n % 256) := by rw [Nat.add_comm, Nat.mul_comm]
        _ = x % (256 ^ n * 256) := Nat.mod_mul.symm
        _ = x % 256 ^ (n + 1) := by rw [Nat.pow_succ]

/-- The bytes can be told from the number. -/
theorem ofBigEndian_inj {bs bs' : List UInt8} (hl : bs.length = bs'.length)
    (h : ofBigEndian bs = ofBigEndian bs') : bs = bs' := by
  induction bs generalizing bs' with
  | nil => exact (List.length_eq_zero_iff.mp hl.symm).symm
  | cons b bs ih =>
      obtain ⟨b', bs', rfl⟩ := List.exists_cons_of_length_eq_add_one hl.symm
      have hl' : bs.length = bs'.length := by simpa using hl
      have hlt := ofBigEndian_lt bs
      have hlt' := ofBigEndian_lt bs'
      rw [ofBigEndian, ofBigEndian, ← hl'] at h
      rw [← hl'] at hlt'
      have hhead : b.toNat = b'.toNat := by
        have hdiv := congrArg (· / 256 ^ bs.length) h
        simpa [Nat.mul_add_div, Nat.mul_comm, Nat.div_eq_of_lt, hlt, hlt'] using hdiv
      have htail : ofBigEndian bs = ofBigEndian bs' := by
        rw [hhead] at h
        exact Nat.add_left_cancel h
      rw [UInt8.toNat_inj.mp hhead, ih hl' htail]

theorem bigEndian_ofBigEndian {bs : List UInt8} {n : Nat} (h : bs.length = n) :
    bigEndian n (ofBigEndian bs) = bs := by
  subst h
  apply ofBigEndian_inj (length_bigEndian _ _)
  rw [ofBigEndian_bigEndian, Nat.mod_eq_of_lt (ofBigEndian_lt bs)]

/-! ## The memory of the host -/

inductive ByteOrder
  | little
  | big
deriving DecidableEq, Repr

/-- The memory of an unsigned integer of `n` bytes. -/
def store (o : ByteOrder) (n x : Nat) : List UInt8 :=
  match o with
  | .little => (bigEndian n x).reverse
  | .big => bigEndian n x

/-- The unsigned integer that memory holds. -/
def load (o : ByteOrder) (bs : List UInt8) : Nat :=
  match o with
  | .little => ofBigEndian bs.reverse
  | .big => ofBigEndian bs

/-- The number with the bytes in the opposite order. -/
def swapBytes (n x : Nat) : Nat := ofBigEndian (bigEndian n x).reverse

/-- `htobe16`, `htobe32` and `htobe64`, for 2, 4 and 8 bytes. -/
def htobe (o : ByteOrder) (n x : Nat) : Nat :=
  match o with
  | .little => swapBytes n x
  | .big => x

/-- `be16toh`, `be32toh` and `be64toh`, for 2, 4 and 8 bytes. -/
def betoh (o : ByteOrder) (n x : Nat) : Nat :=
  match o with
  | .little => swapBytes n x
  | .big => x

variable {o : ByteOrder} {n x : Nat} {bs : List UInt8}

@[simp] theorem length_store : (store o n x).length = n := by
  cases o with
  | little => rw [store, List.length_reverse, length_bigEndian]
  | big => exact length_bigEndian n x

theorem htobe_lt (h : x < 256 ^ n) : htobe o n x < 256 ^ n := by
  cases o with
  | little =>
      have hlt := ofBigEndian_lt (bigEndian n x).reverse
      rw [List.length_reverse, length_bigEndian] at hlt
      exact hlt
  | big => exact h

theorem load_lt (h : bs.length = n) : load o bs < 256 ^ n := by
  subst h
  cases o with
  | little =>
      have hlt := ofBigEndian_lt bs.reverse
      rw [List.length_reverse] at hlt
      exact hlt
  | big => exact ofBigEndian_lt bs

/-- What is stored on either host. -/
theorem store_htobe : store o n (htobe o n x) = bigEndian n x := by
  cases o with
  | little =>
      have hl : (bigEndian n x).reverse.length = n := by
        rw [List.length_reverse, length_bigEndian]
      simp only [store, htobe, swapBytes]
      rw [bigEndian_ofBigEndian hl, List.reverse_reverse]
  | big => rfl

/-- What is loaded on either host. -/
theorem betoh_load (h : bs.length = n) : betoh o n (load o bs) = ofBigEndian bs := by
  cases o with
  | little =>
      have hl : bs.reverse.length = n := by rw [List.length_reverse, h]
      simp only [betoh, load, swapBytes]
      rw [bigEndian_ofBigEndian hl, List.reverse_reverse]
  | big => rfl

end Zing.Lib
