import Mathlib.Tactic.IntervalCases
import Zing.Lib.Memory

set_option autoImplicit false

/-! # `convert` and `convertHex`

The functions that write an integer as text. Both take off the digits from the last to the
first, look each of them up in a table, and turn the text around in place once it is complete.
The table of `convert` has the digits twice, from a pointer into its middle upwards and
downwards, since the remainder of a negative number is negative.

`buf` is a position in a block of memory, and every access is checked. `convert_eq` and
`convertHex_eq` say what the functions write where there is room for it: the numeral with its
terminator, and that they return the length of the numeral.
-/

namespace Zing.Base

open Zing.Lib

/-- The bytes of a literal. -/
def text (s : String) : List UInt8 := s.toList.map Char.toUInt8

namespace Detail

/-! ## The functions -/

/-- A string literal has a terminator. -/
def digits : List UInt8 := text "9876543210123456789" ++ [0]

/-- `zero[lsd]`, where `zero = digits + 9` -/
def zero (lsd : Int) : Except OutOfBounds UInt8 := Memory.entry digits (9 + lsd)

def digitsHex : List UInt8 := text "0123456789ABCDEF" ++ [0]

section

variable {n : Nat}

/-- The loop of both functions: one digit to the base `b`, and the rest of the number. -/
def convertLoop (b : Nat) (hb : 1 < b) (digit : Int → Except OutOfBounds UInt8)
    (m : Memory UInt8 n) (p : Nat) (i : Int) : Except OutOfBounds (Memory UInt8 n × Nat) := do
  let lsd := i.tmod b
  let c ← digit lsd
  let m ← m.write p [c]
  if h : i.tdiv b ≠ 0 then convertLoop b hb digit m (p + 1) (i.tdiv b) else return (m, p + 1)
termination_by i.natAbs
decreasing_by
  rw [Int.natAbs_tdiv, Int.natAbs_natCast]
  refine Nat.div_lt_self ?_ hb
  apply Nat.pos_of_ne_zero
  intro hzero
  rw [Int.natAbs_eq_zero.mp hzero, Int.zero_tdiv] at h
  exact h rfl

/-- `convert(buf, value)`, for any type of integers. -/
def convert (m : Memory UInt8 n) (buf : Nat) (value : Int) :
    Except OutOfBounds (Memory UInt8 n × Nat) := do
  let (m, p) ← convertLoop 10 (by decide) zero m buf value
  let (m, p) ← if value < 0 then (m.write p (text "-")).map (·, p + 1) else pure (m, p)
  let m ← m.write p [0]
  let m ← m.reverse buf p
  return (m, p - buf)

def convertHex (m : Memory UInt8 n) (buf : Nat) (value : Nat) :
    Except OutOfBounds (Memory UInt8 n × Nat) := do
  let (m, p) ← convertLoop 16 (by decide) (Memory.entry digitsHex) m buf value
  let m ← m.write p [0]
  let m ← m.reverse buf p
  return (m, p - buf)

end

/-! ## Numerals -/

/-- The digit `d`, in upper case. -/
def glyph (d : Nat) : UInt8 := d.digitChar.toUpper.toUInt8

/-- The numeral of a number to the base `b`. -/
def numeral (b n : Nat) : List UInt8 := (Nat.toDigits b n).map fun c => c.toUpper.toUInt8

def decimal (v : Int) : List UInt8 := (if v < 0 then text "-" else []) ++ numeral 10 v.natAbs

variable {b k v : Nat}

theorem numeral_of_lt (h : v < b) : numeral b v = [glyph v] := by
  rw [numeral, Nat.toDigits_of_lt_base h]
  rfl

theorem numeral_of_le (hb : 1 < b) (h : b ≤ v) :
    numeral b v = numeral b (v / b) ++ [glyph (v % b)] := by
  rw [numeral, Nat.toDigits_of_base_le hb h, List.map_append]
  rfl

theorem numeral_length_le (hb : 1 < b) (hk : 0 < k) : (numeral b v).length ≤ k ↔ v < b ^ k := by
  rw [numeral, List.length_map]
  exact Nat.length_toDigits_le_iff hb hk

/-! ### Reading a numeral -/

/-- The value of decimal digits. -/
def valueOf (l : List UInt8) : Nat := l.foldl (fun v c => 10 * v + (c.toNat - 48)) 0

theorem glyph_toNat {d : Nat} (h : d < 10) : (glyph d).toNat = 48 + d := by
  interval_cases d <;> rfl

theorem valueOf_numeral (v : Nat) : valueOf (numeral 10 v) = v := by
  induction v using Nat.strong_induction_on with
  | _ v ih =>
    by_cases h : v < 10
    · rw [numeral_of_lt h]
      simp only [valueOf, List.foldl_cons, List.foldl_nil, glyph_toNat h]
      omega
    · have hlt : v % 10 < 10 := Nat.mod_lt v (by decide)
      have hrest : valueOf (numeral 10 (v / 10)) = v / 10 := ih (v / 10) (by omega)
      rw [valueOf] at hrest
      rw [numeral_of_le (by decide) (by omega), valueOf, List.foldl_append, hrest]
      simp only [List.foldl_cons, List.foldl_nil, glyph_toNat hlt]
      omega

/-- The bytes of a decimal numeral are digits. -/
theorem mem_numeral {c : UInt8} (h : c ∈ numeral 10 v) : 48 ≤ c.toNat ∧ c.toNat ≤ 57 := by
  induction v using Nat.strong_induction_on with
  | _ v ih =>
    by_cases hlt : v < 10
    · rw [numeral_of_lt hlt, List.mem_singleton] at h
      rw [h, glyph_toNat hlt]
      omega
    · have hmod : v % 10 < 10 := Nat.mod_lt v (by decide)
      rw [numeral_of_le (by decide) (by omega), List.mem_append, List.mem_singleton] at h
      rcases h with h | h
      · exact ih (v / 10) (by omega) h
      · rw [h, glyph_toNat hmod]
        omega

/-- The bytes of a numeral with its sign are digits and the sign. -/
theorem mem_decimal {v : Int} {c : UInt8} (h : c ∈ decimal v) :
    c = 45 ∨ (48 ≤ c.toNat ∧ c.toNat ≤ 57) := by
  rw [decimal, List.mem_append] at h
  rcases h with h | h
  · split at h
    · exact Or.inl (List.mem_singleton.mp h)
    · cases h
  · exact Or.inr (mem_numeral h)

theorem numeral_ne_sign {w : Nat} {l : List UInt8} : numeral 10 w ≠ text "-" ++ l := by
  intro h
  have hmem : (45 : UInt8) ∈ numeral 10 w := by
    rw [h]
    exact List.mem_cons_self
  have := (mem_numeral hmem).1
  have h45 : (45 : UInt8).toNat = 45 := rfl
  omega

theorem decimal_injective {v w : Int} (h : decimal v = decimal w) : v = w := by
  rw [decimal, decimal] at h
  have habs : ∀ a b, numeral 10 a = numeral 10 b → a = b := fun a b hab => by
    rw [← valueOf_numeral a, hab, valueOf_numeral]
  by_cases hv : v < 0
  · by_cases hw : w < 0
    · rw [if_pos hv, if_pos hw] at h
      have := habs _ _ (List.append_cancel_left h)
      omega
    · rw [if_pos hv, if_neg hw, List.nil_append] at h
      exact absurd h.symm numeral_ne_sign
  · by_cases hw : w < 0
    · rw [if_neg hv, if_pos hw, List.nil_append] at h
      exact absurd h numeral_ne_sign
    · rw [if_neg hv, if_neg hw, List.nil_append, List.nil_append] at h
      have := habs _ _ h
      omega

/-! ## The tables -/

/-- The table has the remainders to the base `b` that `i` can leave: negative ones only if `i`
is negative. -/
def HasDigits (b : Nat) (digit : Int → Except OutOfBounds UInt8) (i : Int) : Prop :=
  ∀ lsd : Int, lsd.natAbs < b → (lsd < 0 → i < 0) → digit lsd = .ok (glyph lsd.natAbs)

theorem zero_digits (i : Int) : HasDigits 10 zero i := by
  intro lsd hlt _
  have hlow : -9 ≤ lsd := by omega
  have hhigh : lsd ≤ 9 := by omega
  interval_cases lsd <;> decide

theorem digitsHex_digits (v : Nat) : HasDigits 16 (Memory.entry digitsHex) v := by
  intro lsd hlt hneg
  have hlow : 0 ≤ lsd := by omega
  have hhigh : lsd ≤ 15 := by omega
  interval_cases lsd <;> decide

/-! ## The loop -/

variable {n : Nat} {digit : Int → Except OutOfBounds UInt8} {i : Int}

theorem HasDigits.tdiv (h : HasDigits b digit i) : HasDigits b digit (i.tdiv b) := by
  intro lsd hlt hneg
  refine h lsd hlt fun hlsd => ?_
  by_contra hpos
  have := Int.tdiv_nonneg (a := i) (by omega) (Int.natCast_nonneg b)
  have := hneg hlsd
  omega

theorem HasDigits.tmod (hb : 1 < b) (h : HasDigits b digit i) :
    digit (i.tmod b) = .ok (glyph (i.natAbs % b)) := by
  have habs : (i.tmod b).natAbs = i.natAbs % b := by
    rw [Int.natAbs_tmod, Int.natAbs_natCast]
  rw [← habs]
  refine h _ ?_ fun hneg => ?_
  · rw [habs]
    exact Nat.mod_lt _ (by omega)
  · by_contra hpos
    have := Int.tmod_nonneg (a := i) (b : Int) (by omega)
    omega

/-- The loop writes the numeral from its last digit to its first. -/
theorem convertLoop_eq (hb : 1 < b) (h : HasDigits b digit i) (m : Memory UInt8 n) (p : Nat) :
    convertLoop b hb digit m p i = (m.write p (numeral b i.natAbs).reverse).map
      fun m' => (m', p + (numeral b i.natAbs).length) := by
  induction hv : i.natAbs using Nat.strong_induction_on generalizing i m p with
  | _ v ih =>
    have hdiv : (i.tdiv b).natAbs = v / b := by
      rw [Int.natAbs_tdiv, Int.natAbs_natCast, hv]
      rfl
    rw [convertLoop, h.tmod hb, hv, ok_bind]
    by_cases hlast : v < b
    · have hzero : ¬ i.tdiv b ≠ 0 := by
        rw [not_not, ← Int.natAbs_eq_zero, hdiv]
        exact Nat.div_eq_of_lt hlast
      rw [numeral_of_lt hlast, Nat.mod_eq_of_lt hlast, List.reverse_singleton]
      cases m.write p [glyph v] with
      | error e => rfl
      | ok m' =>
          rw [ok_bind, dif_neg hzero]
          rfl
    · have hnext : i.tdiv b ≠ 0 := by
        rw [← Int.natAbs_ne_zero, hdiv]
        exact (Nat.div_pos (by omega) (by omega)).ne'
      have hlt : v / b < v := Nat.div_lt_self (by omega) hb
      have hlen : (numeral b (v / b) ++ [glyph (v % b)]).length
          = 1 + (numeral b (v / b)).length := by
        rw [List.length_append, Nat.add_comm]
        rfl
      rw [numeral_of_le hb (by omega), hlen, List.reverse_append, List.reverse_singleton,
        ← Memory.write_append]
      cases m.write p [glyph (v % b)] with
      | error e => rfl
      | ok m' =>
          rw [ok_bind, ok_bind, dif_pos hnext, ih (v / b) hlt h.tdiv m' (p + 1) hdiv,
            Nat.add_assoc]
          rfl

/-! ## The functions -/

variable {m m' : Memory UInt8 n} {buf : Nat} {xs : List UInt8}

/-- What stands there in reverse, before a terminator, is turned around. -/
theorem reverse_written (h : m.write buf (xs.reverse ++ [0]) = .ok m') :
    m'.reverse buf (buf + xs.length) = m.write buf (xs ++ [0]) := by
  have hsegment : segment m'.cells buf (buf + xs.length) = xs.reverse := by
    have hall := congrArg (List.take xs.length) (Memory.segment_write h)
    rw [take_segment _ _ _ _ (by simp)] at hall
    rw [hall]
    exact List.take_left' List.length_reverse
  have hover := Memory.write_over m buf xs.reverse xs [0] (by simp)
  rw [h, ok_bind] at hover
  rw [Memory.reverse, hsegment, List.reverse_reverse, hover]

/-- The end of both functions: the terminator, and the digits are turned around. -/
theorem terminate_eq (h : m.write buf xs.reverse = .ok m') (hroom : buf + xs.length < n) :
    ∃ t, m.write buf (xs ++ [0]) = .ok t ∧
      (do let m ← m'.write (buf + xs.length) [0]
          let m ← m.reverse buf (buf + xs.length)
          return (m, buf + xs.length - buf)) = Except.ok (t, xs.length) := by
  have hfits : buf + (xs ++ [0]).length ≤ n := by
    rw [List.length_append, List.length_singleton]
    omega
  have hterm : m'.write (buf + xs.length) [0] = m.write buf (xs.reverse ++ [0]) := by
    have happ := m.write_append buf xs.reverse [0]
    rw [h, ok_bind, List.length_reverse] at happ
    exact happ
  obtain ⟨t, ht⟩ := m.exists_write _ _ hfits
  obtain ⟨u, hu⟩ := m.exists_write buf (xs.reverse ++ [0]) (by simpa using hfits)
  refine ⟨t, ht, ?_⟩
  rw [hterm, hu, ok_bind, reverse_written hu, ht, ok_bind, Nat.add_sub_cancel_left]
  rfl

/-- `convert` writes the decimal numeral and its terminator, if there is room. -/
theorem convert_eq (m : Memory UInt8 n) (buf : Nat) (value : Int)
    (hroom : buf + (decimal value).length < n) :
    ∃ m', m.write buf (decimal value ++ [0]) = .ok m' ∧
      convert m buf value = .ok (m', (decimal value).length) := by
  have hloop := convertLoop_eq (by decide) (zero_digits value) m buf
  by_cases hneg : value < 0
  · have hdec : decimal value = text "-" ++ numeral 10 value.natAbs := by
      rw [decimal, if_pos hneg]
    have hlen : (decimal value).length = (numeral 10 value.natAbs).length + 1 := by
      rw [hdec, List.length_append, Nat.add_comm]
      rfl
    have hrev : (decimal value).reverse = (numeral 10 value.natAbs).reverse ++ text "-" := by
      rw [hdec, List.reverse_append]
      rfl
    obtain ⟨m₁, h₁⟩ := m.exists_write buf ((numeral 10 value.natAbs).reverse)
      (by rw [List.length_reverse]; omega)
    obtain ⟨m₂, h₂⟩ := m.exists_write buf ((decimal value).reverse)
      (by rw [List.length_reverse]; omega)
    have hsign : m₁.write (buf + (numeral 10 value.natAbs).length) (text "-") = .ok m₂ := by
      have happ := m.write_append buf (numeral 10 value.natAbs).reverse (text "-")
      rw [h₁, ok_bind, List.length_reverse, ← hrev, h₂] at happ
      exact happ
    obtain ⟨t, ht, hend⟩ := terminate_eq h₂ hroom
    refine ⟨t, ht, ?_⟩
    rw [hlen, ← Nat.add_assoc] at hend
    rw [convert, hloop, h₁]
    simp only [Except.map, ok_bind, if_pos hneg, hsign, pure_eq_ok]
    rw [hlen]
    exact hend
  · have hdec : decimal value = numeral 10 value.natAbs := by
      rw [decimal, if_neg hneg, List.nil_append]
    rw [hdec] at hroom ⊢
    obtain ⟨m₁, h₁⟩ := m.exists_write buf ((numeral 10 value.natAbs).reverse)
      (by rw [List.length_reverse]; omega)
    obtain ⟨t, ht, hend⟩ := terminate_eq h₁ hroom
    refine ⟨t, ht, ?_⟩
    rw [convert, hloop, h₁]
    simp only [Except.map, ok_bind, if_neg hneg, pure_eq_ok]
    exact hend

/-- `convertHex` writes the hexadecimal numeral and its terminator, if there is room. -/
theorem convertHex_eq (m : Memory UInt8 n) (buf value : Nat)
    (hroom : buf + (numeral 16 value).length < n) :
    ∃ m', m.write buf (numeral 16 value ++ [0]) = .ok m' ∧
      convertHex m buf value = .ok (m', (numeral 16 value).length) := by
  have hloop := convertLoop_eq (by decide) (digitsHex_digits value) m buf
  rw [Int.natAbs_natCast] at hloop
  obtain ⟨m₁, h₁⟩ := m.exists_write buf ((numeral 16 value).reverse)
    (by rw [List.length_reverse]; omega)
  obtain ⟨t, ht, hend⟩ := terminate_eq h₁ hroom
  refine ⟨t, ht, ?_⟩
  rw [convertHex, hloop, h₁]
  simp only [Except.map, ok_bind]
  exact hend

/-! ## Lengths -/

theorem decimal_length_le {v : Int} (hk : 0 < k) (h : v.natAbs < 10 ^ k) :
    (decimal v).length ≤ k + 1 := by
  have hnum : (numeral 10 v.natAbs).length ≤ k := (numeral_length_le (by decide) hk).mpr h
  have hsign : (if v < 0 then text "-" else []).length ≤ 1 := by
    split
    · exact Nat.le_refl 1
    · exact Nat.zero_le 1
  rw [decimal, List.length_append]
  omega

end Detail

end Zing.Base
