import Mathlib.Algebra.Group.Int.Defs
import Mathlib.Algebra.Group.Nat.Defs
import Mathlib.Data.List.Basic
import Zing.Lib.Assert

set_option autoImplicit false

/-! # Addresses as text

`InetAddress::toIpPort` with `sockets::toIp` and `sockets::toIpPort`, for both address
families. Character buffers are the lists of the characters in front of the terminating null;
a function that prints into a buffer takes its size. `inetNtop4` and `inetNtop6` are those of
the C library, which replaces the longest run of at least two zero groups by `::` and writes
the end of an IPv4-compatible or IPv4-mapped address with dots.
-/

namespace Zing.Net

open Zing.Lib

/-! ## Printing -/

/-- What `snprintf` leaves of a text in a buffer of `size` characters. -/
def snprintf (size : Nat) (text : List Char) : List Char := text.take (size - 1)

/-- `%u` -/
def fmtUnsigned (n : Nat) : List Char := Nat.toDigits 10 n

/-- `%d` -/
def fmtInt : Int → List Char
  | .ofNat n => fmtUnsigned n
  | .negSucc n => '-' :: fmtUnsigned (n + 1)

/-- `%x` -/
def fmtHex (n : Nat) : List Char := Nat.toDigits 16 n

theorem snprintf_of_lt {size : Nat} {text : List Char} (h : text.length < size) :
    snprintf size text = text := List.take_of_length_le (Nat.le_sub_one_of_lt h)

theorem length_fmtUnsigned {n k : Nat} (hk : 0 < k) (hn : n < 10 ^ k) :
    (fmtUnsigned n).length ≤ k := (Nat.length_toDigits_le_iff (by decide) hk).mpr hn

theorem length_fmtHex (w : UInt16) : (fmtHex w.toNat).length ≤ 4 :=
  (Nat.length_toDigits_le_iff (by decide) (by decide)).mpr w.toNat_lt

theorem fmtUnsigned_injective {m n : Nat} (h : fmtUnsigned m = fmtUnsigned n) : m = n := by
  calc m = Nat.ofDigitChars 10 (fmtUnsigned m) 0 := Nat.ofDigitChars_ten_toDigits.symm
    _ = Nat.ofDigitChars 10 (fmtUnsigned n) 0 := by rw [h]
    _ = n := Nat.ofDigitChars_ten_toDigits

/-- A number without a sign does not begin with one. -/
theorem fmtUnsigned_ne_cons (n : Nat) (text : List Char) : fmtUnsigned n ≠ '-' :: text := by
  intro h
  have hdigit : ('-' : Char).isDigit = true := by
    apply Nat.isDigit_of_mem_toDigits (b := 10) (n := n) (by decide) (by decide)
    show '-' ∈ fmtUnsigned n
    rw [h]
    exact List.mem_cons_self
  exact absurd hdigit (by decide)

theorem fmtInt_injective {i j : Int} (h : fmtInt i = fmtInt j) : i = j := by
  cases i with
  | ofNat m =>
      cases j with
      | ofNat n => rw [fmtUnsigned_injective h]
      | negSucc n => exact absurd h (fmtUnsigned_ne_cons m _)
  | negSucc m =>
      cases j with
      | ofNat n => exact absurd h.symm (fmtUnsigned_ne_cons n _)
      | negSucc n =>
          have hdigits := (List.cons.inj h).2
          rw [Nat.succ.inj (fmtUnsigned_injective hdigits)]

/-- The range of `int`. -/
theorem length_fmtInt {i : Int} (hlow : -2 ^ 31 ≤ i) (hhigh : i < 2 ^ 31) :
    (fmtInt i).length ≤ 11 := by
  cases i with
  | ofNat n =>
      have hn : n < 10 ^ 10 := by
        have hlt : (n : Int) < 2 ^ 31 := hhigh
        omega
      exact Nat.le_trans (length_fmtUnsigned (by decide) hn) (by decide)
  | negSucc n =>
      have hn : n + 1 < 10 ^ 10 := by
        omega
      have hlen := length_fmtUnsigned (by decide) hn
      show (fmtUnsigned (n + 1)).length + 1 ≤ 11
      omega

/-! ## Addresses -/

/-- The bytes of an `in_addr`. -/
structure InAddr where
  b₀ : UInt8
  b₁ : UInt8
  b₂ : UInt8
  b₃ : UInt8

/-- The eight groups of an `in6_addr`, in host order. -/
structure In6Addr where
  words : List UInt16
  length_eq : words.length = 8

/-- The addresses that an `InetAddress` can have. -/
inductive Sockaddr
  | inet (addr : InAddr) (port : UInt16)
  | inet6 (addr : In6Addr) (port : UInt16)

/-- `%u.%u.%u.%u` -/
def inetNtop4 (a : InAddr) : List Char :=
  fmtUnsigned a.b₀.toNat ++ '.' :: fmtUnsigned a.b₁.toNat ++ '.' :: fmtUnsigned a.b₂.toNat
    ++ '.' :: fmtUnsigned a.b₃.toNat

/-- A run of zero groups. -/
structure ZeroRun where
  base : Nat
  len : Nat

/-- The longer of two runs, and the first of equal ones. -/
def better (best cur : Option ZeroRun) : Option ZeroRun :=
  match cur, best with
  | none, _ => best
  | some c, none => some c
  | some c, some b => if b.len < c.len then some c else some b

/-- The scan for the longest run; `i` is the index of the next group. -/
def scanZeros (best cur : Option ZeroRun) (i : Nat) : List UInt16 → Option ZeroRun
  | [] => better best cur
  | w :: ws =>
      if w = 0 then
        let cur := match cur with
          | none => ⟨i, 1⟩
          | some c => { c with len := c.len + 1 }
        scanZeros best (some cur) (i + 1) ws
      else scanZeros (better best cur) none (i + 1) ws

/-- The run that `::` stands for. -/
def longestZeros (ws : List UInt16) : Option ZeroRun :=
  (scanZeros none none 0 ws).filter fun r => 2 ≤ r.len

/-- The group `i` is inside of the run. -/
def inside (best : Option ZeroRun) (i : Nat) : Bool :=
  match best with
  | none => false
  | some r => decide (r.base ≤ i) && decide (i < r.base + r.len)

/-- The address encapsulates an IPv4 address. -/
def encapsulates (best : Option ZeroRun) (ws : List UInt16) : Bool :=
  match best with
  | none => false
  | some r => decide (r.base = 0) &&
      (decide (r.len = 6) || decide (r.len = 5) && decide (ws[5]? = some 0xffff))

/-- The last two groups as the bytes of an IPv4 address. -/
def lastBytes (ws : List UInt16) : InAddr :=
  let w₆ := ws.getD 6 0
  let w₇ := ws.getD 7 0
  ⟨(w₆ >>> 8).toUInt8, w₆.toUInt8, (w₇ >>> 8).toUInt8, w₇.toUInt8⟩

/-- The groups from the index `i` on; `dotted` is the encapsulated address, with which the text
ends. -/
def groups (best : Option ZeroRun) (dotted : Option (List Char)) (i : Nat) :
    List UInt16 → List Char
  | [] => []
  | w :: ws =>
      if inside best i = true then
        (if best.map ZeroRun.base = some i then [':'] else []) ++ groups best dotted (i + 1) ws
      else
        (if i = 0 then [] else [':']) ++
          match dotted with
          | some text =>
              if i = 6 then text else fmtHex w.toNat ++ groups best dotted (i + 1) ws
          | none => fmtHex w.toNat ++ groups best dotted (i + 1) ws

/-- The colon behind a trailing run. -/
def trailing (best : Option ZeroRun) : List Char :=
  match best with
  | none => []
  | some r => if r.base + r.len = 8 then [':'] else []

def inetNtop6 (a : In6Addr) : List Char :=
  let best := longestZeros a.words
  let dotted :=
    if encapsulates best a.words = true then some (inetNtop4 (lastBytes a.words)) else none
  groups best dotted 0 a.words ++ trailing best

/-! ## `toIp` and `toIpPort` -/

inductive InetAssertion
  | inetAddrStrlen
  | inet6AddrStrlen
  | toIpPortSize
  deriving DecidableEq, Repr

/-- `inet_ntop` leaves the empty buffer alone if the text does not fit. -/
def fitting (size : Nat) (text : List Char) : List Char :=
  if text.length < size then text else []

def toIp (size : Nat) : Sockaddr → Except InetAssertion (List Char)
  | .inet addr _ => do
      check (size ≥ 16) .inetAddrStrlen
      .ok (fitting size (inetNtop4 addr))
  | .inet6 addr _ => do
      check (size ≥ 46) .inet6AddrStrlen
      .ok (fitting size (inetNtop6 addr))

def toIpPort (size : Nat) (addr : Sockaddr) : Except InetAssertion (List Char) := do
  match addr with
  | .inet6 _ port =>
      let ip ← toIp (size - 1) addr
      let buf := '[' :: ip
      check (size > buf.length) .toIpPortSize
      .ok (buf ++ snprintf (size - buf.length) (']' :: ':' :: fmtUnsigned port.toNat))
  | .inet _ port =>
      let buf ← toIp size addr
      check (size > buf.length) .toIpPortSize
      .ok (buf ++ snprintf (size - buf.length) (':' :: fmtUnsigned port.toNat))

/-- `InetAddress::toIpPort`, with its buffer of 64 characters -/
def InetAddress.toIpPort (addr : Sockaddr) : Except InetAssertion (List Char) :=
  Net.toIpPort 64 addr

/-! ## How long the texts are -/

theorem length_inetNtop4 (a : InAddr) : (inetNtop4 a).length ≤ 15 := by
  have hbyte : ∀ b : UInt8, (fmtUnsigned b.toNat).length ≤ 3 := by
    intro b
    have hb := b.toNat_lt
    exact length_fmtUnsigned (by decide) (by omega)
  have h₀ := hbyte a.b₀
  have h₁ := hbyte a.b₁
  have h₂ := hbyte a.b₂
  have h₃ := hbyte a.b₃
  simp only [inetNtop4, List.length_append, List.length_cons]
  omega

/-- A group takes at most five characters, and the dotted end at most eleven more. -/
theorem length_groups (best : Option ZeroRun) (dotted : Option (List Char)) (extra : Nat)
    (hdotted : ∀ text, dotted = some text → text.length ≤ 15 ∧ extra = 11) (i : Nat)
    (ws : List UInt16) : (groups best dotted i ws).length ≤ 5 * ws.length + extra := by
  induction ws generalizing i with
  | nil => exact Nat.zero_le _
  | cons w ws ih =>
      have hrest := ih (i + 1)
      have hhex := length_fmtHex w
      have hcolon : (if i = 0 then ([] : List Char) else [':']).length ≤ 1 := by
        split
        · exact Nat.zero_le 1
        · exact Nat.le_refl 1
      have hplain : (fmtHex w.toNat ++ groups best dotted (i + 1) ws).length ≤
          4 + (5 * ws.length + extra) := by
        rw [List.length_append]
        omega
      simp only [groups, List.length_cons]
      split
      · have hbase : (if best.map ZeroRun.base = some i then [':'] else []).length ≤ 1 := by
          split
          · exact Nat.le_refl 1
          · exact Nat.zero_le 1
        rw [List.length_append]
        omega
      · rw [List.length_append]
        cases dotted with
        | none =>
            dsimp only
            omega
        | some text =>
            obtain ⟨htext, hextra⟩ := hdotted text rfl
            dsimp only
            by_cases hsix : i = 6
            · rw [if_pos hsix]
              omega
            · rw [if_neg hsix]
              omega

/-- In front of an encapsulated address the groups are a run of zeros, but for one group. -/
theorem groups_encapsulates {best : Option ZeroRun} {a : In6Addr} (dotted : Option (List Char))
    (h : encapsulates best a.words = true) : ∃ ws, ws.length = 3 ∧
      groups best dotted 0 a.words = ':' :: groups best dotted 5 ws := by
  obtain ⟨words, hlen⟩ := a
  cases best with
  | none => cases h
  | some r =>
      obtain ⟨hbase, hruns⟩ := Bool.and_eq_true_iff.mp h
      have hbase : r.base = 0 := of_decide_eq_true hbase
      have hrun : 5 ≤ r.len := by
        rcases Bool.or_eq_true_iff.mp hruns with hsix | hfive
        · have hsix : r.len = 6 := of_decide_eq_true hsix
          omega
        · have hfive : r.len = 5 := of_decide_eq_true (Bool.and_eq_true_iff.mp hfive).1
          omega
      have hinside : ∀ i, i < 5 → inside (some r) i = true := by
        intro i hi
        simp only [inside, hbase, Nat.zero_add, Bool.and_eq_true, decide_eq_true_eq]
        omega
      match words, hlen with
      | [w₀, w₁, w₂, w₃, w₄, w₅, w₆, w₇], _ =>
          refine ⟨[w₅, w₆, w₇], rfl, ?_⟩
          simp [groups, hinside, hbase]

theorem length_trailing (best : Option ZeroRun) : (trailing best).length ≤ 1 := by
  unfold trailing
  split
  · exact Nat.zero_le 1
  · split
    · exact Nat.le_refl 1
    · exact Nat.zero_le 1

theorem length_inetNtop6 (a : In6Addr) : (inetNtop6 a).length ≤ 41 := by
  have htrailing := length_trailing (longestZeros a.words)
  have hwords := a.length_eq
  unfold inetNtop6
  dsimp only
  rw [List.length_append]
  by_cases he : encapsulates (longestZeros a.words) a.words = true
  · rw [if_pos he]
    obtain ⟨ws, hws, heq⟩ :=
      groups_encapsulates (some (inetNtop4 (lastBytes a.words))) he
    have hgroups := length_groups (longestZeros a.words)
      (some (inetNtop4 (lastBytes a.words))) 11 (by
        rintro text ⟨⟩
        exact ⟨length_inetNtop4 _, rfl⟩) 5 ws
    rw [heq, List.length_cons]
    omega
  · rw [if_neg he]
    have hgroups := length_groups (longestZeros a.words) none 0 (by rintro text ⟨⟩) 0 a.words
    omega

theorem length_port (port : UInt16) : (fmtUnsigned port.toNat).length ≤ 5 := by
  have hport := port.toNat_lt
  exact length_fmtUnsigned (by decide) (by omega)

/-- `toIpPort` fails no assertion, and prints all of the address and the port. -/
theorem toIpPort_spec (addr : Sockaddr) : ∃ text, InetAddress.toIpPort addr = .ok text ∧
    text.length ≤ 49 := by
  cases addr with
  | inet addr port =>
      have hip := length_inetNtop4 addr
      have hport := length_port port
      have hfit : fitting 64 (inetNtop4 addr) = inetNtop4 addr := if_pos (by omega)
      refine ⟨inetNtop4 addr ++ ':' :: fmtUnsigned port.toNat, ?_, ?_⟩
      · have hsize : 64 > (inetNtop4 addr).length := by omega
        show (toIp 64 (.inet addr port) >>= _) = _
        rw [toIp, check_bind (by decide), hfit, ok_bind, check_bind hsize, snprintf_of_lt]
        rw [List.length_cons]
        omega
      · rw [List.length_append, List.length_cons]
        omega
  | inet6 addr port =>
      have hip := length_inetNtop6 addr
      have hport := length_port port
      have hfit : fitting 63 (inetNtop6 addr) = inetNtop6 addr := if_pos (by omega)
      refine ⟨'[' :: inetNtop6 addr ++ ']' :: ':' :: fmtUnsigned port.toNat, ?_, ?_⟩
      · have hsize : 64 > ('[' :: inetNtop6 addr).length := by
          rw [List.length_cons]
          omega
        show (toIp 63 (.inet6 addr port) >>= _) = _
        rw [toIp, check_bind (by decide), hfit, ok_bind, check_bind hsize, snprintf_of_lt]
        simp only [List.length_cons]
        omega
      · simp only [List.length_append, List.length_cons]
        omega

end Zing.Net
