import Zing.Base.LogStream

set_option autoImplicit false

/-! # The numerals of `convert` are canonical

A numeral to the base `b` is canonical if it has only digits to this base, upper-case ones, at
least one of them, and no leading zero unless it is the zero. Each number has one canonical
numeral and each canonical numeral is that of one number, so that a text can be read back.

The loop works on a number that stays a value of its type, and the number of digits is bounded
by the width of the type.
-/

namespace Zing.Base.Detail

open Zing.Lib LogStream

/-! ## What a numeral is -/

/-- A value of the signed or of the unsigned type of `w` bits. -/
def IsValue (w : Nat) (v : Int) : Prop := Fits w v ∨ (0 ≤ v ∧ v < 2 ^ w)

/-- Digits of the base `b`, at least one, and no 0 in front of others. -/
structure Canonical (b : Nat) (l : List UInt8) : Prop where
  digits : ∀ c ∈ l, ∃ d < b, c = glyph d
  nonempty : l ≠ []
  leading : l.head? = some (glyph 0) → l = [glyph 0]

/-- The digit for which a byte stands. -/
def digitOf (c : UInt8) : Nat := digitsHex.idxOf c

/-- The number for which a numeral stands. -/
def readNumeral (b : Nat) (l : List UInt8) : Nat := l.foldl (fun v c => b * v + digitOf c) 0

/-- The canonical text of `v`: a sign if it is negative, and the canonical numeral. -/
def IsDecimal (v : Int) (l : List UInt8) : Prop :=
  ∃ ds, Canonical 10 ds ∧ readNumeral 10 ds = v.natAbs ∧
    l = (if v < 0 then text "-" else []) ++ ds

/-- Reads a numeral with its sign. -/
def readDecimal (l : List UInt8) : Int :=
  if l.head? = some 45 then -(readNumeral 10 l.tail : Int) else readNumeral 10 l

/-- `xs` stands in the block with its terminator, and its length was returned. -/
def Wrote {n : Nat} (m : Memory UInt8 n) (buf : Nat) (xs : List UInt8)
    (result : Except OutOfBounds (Memory UInt8 n × Nat)) : Prop :=
  ∃ m', m.write buf (xs ++ [0]) = .ok m' ∧ result = .ok (m', xs.length)

variable {b k v : Nat} {l : List UInt8}

/-! ## Digits -/

theorem digitOf_glyph {d : Nat} (h : d < 16) : digitOf (glyph d) = d := by
  interval_cases d <;> rfl

theorem glyph_ne_sign {d : Nat} (h : d < 16) : glyph d ≠ 45 := by
  interval_cases d <;> decide

theorem readNumeral_append (c : UInt8) :
    readNumeral b (l ++ [c]) = b * readNumeral b l + digitOf c := by
  rw [readNumeral, List.foldl_append]
  rfl

/-! ## The numeral of a number is canonical -/

/-- Behind a numeral that is not the zero, there may be any digit. -/
theorem Canonical.snoc {d : Nat} (h : Canonical b l) (hne : l ≠ [glyph 0]) (hd : d < b) :
    Canonical b (l ++ [glyph d]) := by
  constructor
  · intro c hc
    rw [List.mem_append, List.mem_singleton] at hc
    rcases hc with hc | hc
    · exact h.digits c hc
    · exact ⟨d, hd, hc⟩
  · exact List.append_ne_nil_of_left_ne_nil h.nonempty _
  · intro hhead
    rw [List.head?_append_of_ne_nil _ h.nonempty] at hhead
    exact absurd (h.leading hhead) hne

theorem canonical_digit {d : Nat} (hd : d < b) : Canonical b [glyph d] := by
  constructor
  · intro c hc
    exact ⟨d, hd, List.mem_singleton.mp hc⟩
  · exact List.cons_ne_nil _ _
  · intro hhead
    rw [Option.some.inj hhead]

theorem readNumeral_numeral (hb : 1 < b) (hb' : b ≤ 16) (v : Nat) :
    readNumeral b (numeral b v) = v := by
  induction v using Nat.strong_induction_on with
  | _ v ih =>
    by_cases h : v < b
    · rw [numeral_of_lt h]
      simp only [readNumeral, List.foldl_cons, List.foldl_nil]
      rw [digitOf_glyph (by omega)]
      omega
    · have hlt : v % b < b := Nat.mod_lt v (by omega)
      have hsmaller : v / b < v := Nat.div_lt_self (by omega) hb
      rw [numeral_of_le hb (by omega), readNumeral_append, ih _ hsmaller,
        digitOf_glyph (by omega)]
      exact Nat.div_add_mod v b

theorem numeral_canonical (hb : 1 < b) (hb' : b ≤ 16) (v : Nat) : Canonical b (numeral b v) := by
  induction v using Nat.strong_induction_on with
  | _ v ih =>
    by_cases h : v < b
    · rw [numeral_of_lt h]
      exact canonical_digit h
    · have hsmaller : v / b < v := Nat.div_lt_self (by omega) hb
      have hpos : 0 < v / b := Nat.div_pos (by omega) (by omega)
      rw [numeral_of_le hb (by omega)]
      refine (ih _ hsmaller).snoc ?_ (Nat.mod_lt v (by omega))
      intro hzero
      have hread := readNumeral_numeral hb hb' (v / b)
      rw [hzero] at hread
      simp only [readNumeral, List.foldl_cons, List.foldl_nil] at hread
      rw [digitOf_glyph (by decide)] at hread
      omega

/-! ## A canonical numeral is that of its number -/

/-- The digits before the last one are canonical, if there are any. -/
theorem Canonical.init {c : UInt8} (h : Canonical b (l ++ [c])) (hl : l ≠ []) :
    Canonical b l ∧ l.head? ≠ some (glyph 0) := by
  have hhead : l.head? ≠ some (glyph 0) := by
    intro hzero
    have hall := h.leading (by rw [List.head?_append_of_ne_nil _ hl, hzero])
    have hlen := congrArg List.length hall
    have hpos := List.length_pos_of_ne_nil hl
    rw [List.length_append, List.length_singleton, List.length_singleton] at hlen
    omega
  refine ⟨⟨fun c hc => h.digits c (List.mem_append_left _ hc), hl, ?_⟩, hhead⟩
  intro hzero
  exact absurd hzero hhead

theorem Canonical.eq_numeral (hb : 1 < b) (hb' : b ≤ 16) (h : Canonical b l) :
    l = numeral b (readNumeral b l) := by
  induction l using List.reverseRecOn with
  | nil => exact absurd rfl h.nonempty
  | append_singleton l c ih =>
      obtain ⟨d, hd, rfl⟩ := h.digits c (by simp)
      by_cases hl : l = []
      · subst hl
        rw [readNumeral_append, digitOf_glyph (by omega)]
        simp only [readNumeral, List.foldl_nil, Nat.mul_zero, Nat.zero_add, List.nil_append]
        rw [numeral_of_lt hd]
      · obtain ⟨hinit, hhead⟩ := h.init hl
        have hl' := ih hinit
        have hpos : 0 < readNumeral b l := by
          apply Nat.pos_of_ne_zero
          intro hzero
          rw [hzero, numeral_of_lt (by omega)] at hl'
          rw [hl'] at hhead
          exact hhead rfl
        have hge : b ≤ b * readNumeral b l := Nat.le_mul_of_pos_right b hpos
        rw [readNumeral_append, digitOf_glyph (by omega), numeral_of_le hb (by omega),
          Nat.mul_add_div (by omega), Nat.div_eq_of_lt hd, Nat.add_zero, Nat.mul_add_mod,
          Nat.mod_eq_of_lt hd, ← hl']

theorem numeral_injective (hb : 1 < b) (hb' : b ≤ 16) {u v : Nat}
    (h : numeral b u = numeral b v) : u = v := by
  rw [← readNumeral_numeral hb hb' u, h, readNumeral_numeral hb hb']

theorem canonical_iff (hb : 1 < b) (hb' : b ≤ 16) :
    Canonical b l ∧ readNumeral b l = v ↔ l = numeral b v := by
  constructor
  · intro ⟨h, hv⟩
    rw [← hv]
    exact h.eq_numeral hb hb'
  · intro h
    rw [h]
    exact ⟨numeral_canonical hb hb' v, readNumeral_numeral hb hb' v⟩

/-! ## The sign -/

theorem isDecimal_iff {v : Int} : IsDecimal v l ↔ l = decimal v := by
  constructor
  · intro ⟨ds, hds, hread, hl⟩
    rw [hl, (canonical_iff (by decide) (by decide)).mp ⟨hds, hread⟩]
    rfl
  · intro h
    obtain ⟨hds, hread⟩ := (canonical_iff (l := numeral 10 v.natAbs) (by decide)
      (by decide)).mpr rfl
    exact ⟨_, hds, hread, h⟩

theorem readDecimal_decimal (v : Int) : readDecimal (decimal v) = v := by
  have hread : readNumeral 10 (numeral 10 v.natAbs) = v.natAbs :=
    readNumeral_numeral (by decide) (by decide) _
  by_cases hneg : v < 0
  · rw [decimal, if_pos hneg, readDecimal]
    have hhead : (text "-" ++ numeral 10 v.natAbs).head? = some 45 := rfl
    have htail : (text "-" ++ numeral 10 v.natAbs).tail = numeral 10 v.natAbs := rfl
    rw [if_pos hhead, htail, hread]
    omega
  · have hhead : (numeral 10 v.natAbs).head? ≠ some 45 := by
      intro hsign
      obtain ⟨d, hd, hglyph⟩ := (numeral_canonical (by decide) (by decide) v.natAbs).digits 45
        (List.mem_of_head? hsign)
      exact glyph_ne_sign (by omega) hglyph.symm
    rw [decimal, if_neg hneg, List.nil_append, readDecimal, if_neg hhead, hread]
    omega

/-! ## Widths -/

theorem IsValue.natAbs_le {w : Nat} {v : Int} (h : IsValue w v) (hw : w ≤ 64) :
    v.natAbs ≤ 2 ^ 64 := by
  have hpow : (2 : Int) ^ w ≤ 2 ^ 64 := pow_le_pow_right₀ (by decide) hw
  have hhalf : (2 : Int) ^ (w - 1) ≤ 2 ^ 64 := pow_le_pow_right₀ (by decide) (by omega)
  rcases h with ⟨hlow, hhigh⟩ | ⟨hlow, hhigh⟩ <;> omega

/-- What the loop goes on with is a value of the type again. -/
theorem IsValue.tdiv {w : Nat} {v : Int} (h : IsValue w v) (b : Nat) :
    IsValue w (v.tdiv b) := by
  have habs : (v.tdiv b).natAbs ≤ v.natAbs := by
    rw [Int.natAbs_tdiv]
    exact Nat.div_le_self _ _
  have hnonneg : 0 ≤ v → 0 ≤ v.tdiv b := fun hv =>
    Int.tdiv_nonneg hv (Int.natCast_nonneg b)
  have hnonpos : v ≤ 0 → v.tdiv b ≤ 0 := by
    intro hv
    have hneg := Int.tdiv_nonneg (Int.neg_nonneg_of_nonpos hv) (Int.natCast_nonneg b)
    rw [Int.neg_tdiv] at hneg
    exact Int.nonpos_of_neg_nonneg hneg
  rcases h with ⟨hlow, hhigh⟩ | ⟨hlow, hhigh⟩
  · refine Or.inl ⟨?_, ?_⟩ <;> omega
  · exact Or.inr ⟨hnonneg hlow, by omega⟩

theorem decimal_fits {w : Nat} {v : Int} (h : IsValue w v) (hw : w ≤ 64) :
    (decimal v).length + 1 < kMaxNumericSize := by
  have hle := decimal_length_le (v := v) (k := 20) (by decide)
    (Nat.lt_of_le_of_lt (h.natAbs_le hw) (by decide))
  rw [kMaxNumericSize]
  omega

theorem numeral_fits {w : Nat} (h : v < 2 ^ w) (hw : w ≤ 64) :
    (numeral 16 v).length + 1 < kMaxNumericSize := by
  have hlt : v < 16 ^ 16 :=
    Nat.lt_of_lt_of_le h (Nat.pow_le_pow_right (by decide) hw)
  have hle : (numeral 16 v).length ≤ 16 := (numeral_length_le (by decide) (by decide)).mpr hlt
  rw [kMaxNumericSize]
  omega

/-! ## The functions -/

variable {n : Nat}

/-- The bytes behind what is written, up to its terminator, are in the block. -/
def HasRoom (n buf : Nat) (xs : List UInt8) : Prop := buf + xs.length + 1 ≤ n

/-- `convert` and `convertHex` write canonical numerals, wherever there is room for them: in
particular into the `kMaxNumericSize` bytes that a stream keeps free. -/
theorem convert_canonical :
    (∀ (w : Nat) (v : Int), IsValue w v →
      (∀ (n : Nat) (m : Memory UInt8 n) (buf : Nat), HasRoom n buf (decimal v) →
        Wrote m buf (decimal v) (convert m buf v)) ∧
      (∀ l, IsDecimal v l ↔ l = decimal v) ∧ readDecimal (decimal v) = v ∧
      IsValue w (v.tdiv (10 : Nat)) ∧
      (w ≤ 64 → (decimal v).length + 1 < kMaxNumericSize ∧
        ∀ s : LogStream, s.buffer.avail ≥ kMaxNumericSize →
          ∃ t, s.formatInteger v = .ok t ∧
            t.buffer.content = s.buffer.content ++ decimal v)) ∧
    (∀ (w v : Nat), v < 2 ^ w →
      (∀ (n : Nat) (m : Memory UInt8 n) (buf : Nat), HasRoom n buf (numeral 16 v) →
        Wrote m buf (numeral 16 v) (convertHex m buf v)) ∧
      (∀ l, Canonical 16 l ∧ readNumeral 16 l = v ↔ l = numeral 16 v) ∧
      (w ≤ 64 → (numeral 16 v).length + 1 < kMaxNumericSize)) ∧
    (∀ u v : Int, decimal u = decimal v → u = v) ∧
    (∀ u v : Nat, numeral 16 u = numeral 16 v → u = v) ∧
    decimal 0 = text "0" ∧ numeral 16 0 = text "0" := by
  refine ⟨?_, ?_, fun u v => decimal_injective, fun u v =>
    numeral_injective (by decide) (by decide), by decide, by decide⟩
  · intro w v hv
    refine ⟨?_, fun l => isDecimal_iff, readDecimal_decimal v, hv.tdiv 10, fun hw => ?_⟩
    · intro n m buf hroom
      exact convert_eq m buf v hroom
    · have hlen := decimal_fits hv hw
      refine ⟨hlen, fun s havail => ?_⟩
      obtain ⟨t, ht, htook⟩ := formatInteger_spec (s := s) (Nat.lt_of_succ_lt hlen)
      rw [FixedBuffer.Took, if_pos (avail_ge.mp havail)] at htook
      exact ⟨t, ht, htook⟩
  · intro w v hv
    refine ⟨?_, fun l => canonical_iff (by decide) (by decide), numeral_fits hv⟩
    intro n m buf hroom
    exact convertHex_eq m buf v hroom

end Zing.Base.Detail
