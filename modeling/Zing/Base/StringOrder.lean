import Zing.Base.StringPiece
import Zing.Lib.Memory

set_option autoImplicit false

/-! # The order of `StringPiece`

The comparisons of two pieces, each with a `memcmp` of the bytes that both have and a look at
the lengths. `memcmp` is not in the source: it is a function with the sign of the first
difference, as bytes without a sign.

`stringPiece_order` says that all comparisons are those of one order, the lexicographic one on
the lists of bytes.
-/

namespace Zing.Base

open Lib

/-- `memcmp`, on the bytes that it reads. -/
structure Memcmp where
  result : List UInt8 → List UInt8 → Int
  same : ∀ xs, result xs xs = 0
  less : ∀ p b c xs ys, b < c → result (p ++ b :: xs) (p ++ c :: ys) < 0
  greater : ∀ p b c xs ys, c < b → 0 < result (p ++ b :: xs) (p ++ c :: ys)

/-- `memcmp(s1, s2, n)` -/
def Memcmp.call (M : Memcmp) (s1 s2 : List UInt8) (n : Nat) : Except OutOfBounds Int := do
  let xs ← Memory.read s1 n
  let ys ← Memory.read s2 n
  return M.result xs ys

namespace StringPiece

variable (M : Memcmp)

/-! ## The functions -/

/-- `operator==` -/
def eq (s x : StringPiece) : Except OutOfBounds Bool :=
  if s.length = x.length then do
    let r ← M.call s.ptr x.ptr s.sizeT
    return r == 0
  else return false

/-- `operator!=` -/
def ne (s x : StringPiece) : Except OutOfBounds Bool := do
  let r ← s.eq M x
  return !r

/-- The shorter length, as a `size_t`. -/
def minLength (s x : StringPiece) : Nat :=
  toUnsigned 64 (if s.length < x.length then s.length else x.length)

/-- `STRINGPIECE_BINARY_PREDICATE(cmp, auxcmp)` -/
def binaryPredicate (cmp auxcmp : Int → Int → Bool) (s x : StringPiece) :
    Except OutOfBounds Bool := do
  let r ← M.call s.ptr x.ptr (s.minLength x)
  return auxcmp r 0 || (r == 0 && cmp s.length x.length)

/-- `operator<` -/
def lt (s x : StringPiece) : Except OutOfBounds Bool :=
  binaryPredicate M (fun a b => decide (a < b)) (fun a b => decide (a < b)) s x

/-- `operator<=` -/
def le (s x : StringPiece) : Except OutOfBounds Bool :=
  binaryPredicate M (fun a b => decide (a ≤ b)) (fun a b => decide (a < b)) s x

/-- `operator>=` -/
def ge (s x : StringPiece) : Except OutOfBounds Bool :=
  binaryPredicate M (fun a b => decide (a ≥ b)) (fun a b => decide (a > b)) s x

/-- `operator>` -/
def gt (s x : StringPiece) : Except OutOfBounds Bool :=
  binaryPredicate M (fun a b => decide (a > b)) (fun a b => decide (a > b)) s x

def compare (s x : StringPiece) : Except OutOfBounds Int := do
  let r ← M.call s.ptr x.ptr (s.minLength x)
  if r = 0 then
    if s.length < x.length then return -1
    else if s.length > x.length then return 1
    else return r
  else return r

def startsWith (s x : StringPiece) : Except OutOfBounds Bool :=
  if s.length ≥ x.length then do
    let r ← M.call s.ptr x.ptr x.sizeT
    return r == 0
  else return false

/-! ## The bytes of a piece -/

/-- A piece of memory, of a length that is not negative. -/
def Held (s : StringPiece) : Prop := s.Readable ∧ 0 ≤ s.length

instance (s : StringPiece) : Decidable s.Held := inferInstanceAs (Decidable (_ ∧ _))

def content (s : StringPiece) : List UInt8 := s.ptr.take s.length.toNat

variable {M} {s x : StringPiece}

theorem Held.length_content (h : s.Held) : (s.content.length : Int) = s.length := by
  obtain ⟨⟨-, hle⟩, hnonneg⟩ := h
  rw [content, List.length_take, Nat.min_eq_left (by omega)]
  exact Int.toNat_of_nonneg hnonneg

theorem Held.toUnsigned_length (h : s.Held) : toUnsigned 64 s.length = s.content.length := by
  obtain ⟨⟨hfits, -⟩, -⟩ := id h
  rw [fits_32] at hfits
  have hlen := h.length_content
  rw [← hlen]
  exact toUnsigned_natCast (by omega)

theorem Held.minLength (h : s.Held) (hx : x.Held) :
    s.minLength x = min s.content.length x.content.length := by
  have hs := h.length_content
  have hx' := hx.length_content
  rw [StringPiece.minLength]
  split
  · rw [h.toUnsigned_length]
    omega
  · rw [hx.toUnsigned_length]
    omega

/-- Of the bytes of a piece, any number can be read. -/
theorem read_content {n : Nat} (hn : n ≤ s.content.length) :
    Memory.read s.ptr n = .ok (s.content.take n) := by
  have hlen : s.content.length ≤ s.ptr.length := List.length_take_le' _ _
  have hle : n ≤ s.length.toNat := Nat.le_trans hn (List.length_take_le _ _)
  rw [Memory.read_ok (by omega), content, List.take_take, Nat.min_eq_left hle]

theorem call_content {n : Nat} (hn : n ≤ s.content.length) (hn' : n ≤ x.content.length) :
    M.call s.ptr x.ptr n = .ok (M.result (s.content.take n) (x.content.take n)) := by
  rw [Memcmp.call, read_content hn, ok_bind, read_content hn', ok_bind]
  rfl

/-! ## The first difference -/

/-- How two lists of bytes compare: at the first byte in which they differ, or one of them is
the beginning of the other. -/
inductive Compared : List UInt8 → List UInt8 → Prop
  | less (p : List UInt8) {b c : UInt8} (xs ys : List UInt8) (h : b < c) :
      Compared (p ++ b :: xs) (p ++ c :: ys)
  | greater (p : List UInt8) {b c : UInt8} (xs ys : List UInt8) (h : c < b) :
      Compared (p ++ b :: xs) (p ++ c :: ys)
  | shorter (xs zs : List UInt8) : Compared xs (xs ++ zs)
  | longer (xs zs : List UInt8) : Compared (xs ++ zs) xs

theorem Compared.cons {xs ys : List UInt8} (h : Compared xs ys) (a : UInt8) :
    Compared (a :: xs) (a :: ys) := by
  cases h with
  | less p xs ys h => exact .less (a :: p) xs ys h
  | greater p xs ys h => exact .greater (a :: p) xs ys h
  | shorter xs zs => exact .shorter (a :: xs) zs
  | longer xs zs => exact .longer (a :: ys) zs

theorem compared (xs ys : List UInt8) : Compared xs ys := by
  induction xs generalizing ys with
  | nil => exact .shorter [] ys
  | cons a xs ih =>
      cases ys with
      | nil => exact .longer [] (a :: xs)
      | cons b ys =>
          rcases Nat.lt_trichotomy a.toNat b.toNat with h | h | h
          · exact .less [] xs ys (UInt8.lt_iff_toNat_lt.mpr h)
          · rw [UInt8.toNat_inj.mp h]
            exact (ih ys).cons b
          · exact .greater [] xs ys (UInt8.lt_iff_toNat_lt.mpr h)

theorem append_lt_append {b c : UInt8} (p xs ys : List UInt8) (h : b < c) :
    p ++ b :: xs < p ++ c :: ys := by
  induction p with
  | nil => exact List.Lex.rel h
  | cons a p ih => exact List.Lex.cons ih

theorem lt_append {zs : List UInt8} (xs : List UInt8) (h : zs ≠ []) : xs < xs ++ zs := by
  induction xs with
  | nil =>
      cases zs with
      | nil => exact absurd rfl h
      | cons a zs => exact List.Lex.nil
  | cons a xs ih => exact List.Lex.cons ih

/-- The lexicographic order: a proper prefix comes first, or the first difference decides. -/
def Precedes (xs ys : List UInt8) : Prop :=
  (∃ z zs, ys = xs ++ z :: zs) ∨
    ∃ p b c xs' ys', b < c ∧ xs = p ++ b :: xs' ∧ ys = p ++ c :: ys'

theorem lt_of_precedes {xs ys : List UInt8} (h : Precedes xs ys) : xs < ys := by
  rcases h with ⟨z, zs, rfl⟩ | ⟨p, b, c, xs', ys', hlt, rfl, rfl⟩
  · exact lt_append xs (List.cons_ne_nil z zs)
  · exact append_lt_append p xs' ys' hlt

/-- It is the order that the lists have. -/
theorem lt_iff_precedes {xs ys : List UInt8} : xs < ys ↔ Precedes xs ys := by
  constructor
  · intro hlt
    cases compared xs ys with
    | less p xs ys h => exact Or.inr ⟨p, _, _, xs, ys, h, rfl, rfl⟩
    | greater p xs ys h => exact absurd (append_lt_append p ys xs h) (List.lt_asymm hlt)
    | shorter _ zs =>
        cases zs with
        | nil =>
            rw [List.append_nil] at hlt
            exact absurd hlt (List.lt_irrefl xs)
        | cons z zs => exact Or.inl ⟨z, zs, rfl⟩
    | longer _ zs =>
        by_cases hzs : zs = []
        · rw [hzs, List.append_nil] at hlt
          exact absurd hlt (List.lt_irrefl ys)
        · exact absurd (lt_append ys hzs) (List.lt_asymm hlt)
  · exact lt_of_precedes

/-- The five cases of a comparison: the sign of `r`, or the lengths where it is zero. -/
inductive Outcome (r : Int) (xs ys : List UInt8) : Prop
  | less (hr : r < 0) (h : xs < ys)
  | greater (hr : 0 < r) (h : ys < xs)
  | shorter (hr : r = 0) (hlen : xs.length < ys.length) (h : xs < ys)
  | equal (hr : r = 0) (hlen : xs.length = ys.length) (h : xs = ys)
  | longer (hr : r = 0) (hlen : ys.length < xs.length) (h : ys < xs)

theorem take_append_cons (p : List UInt8) (b : UInt8) (xs : List UInt8) {n : Nat}
    (h : p.length < n) :
    (p ++ b :: xs).take n = p ++ b :: xs.take (n - p.length - 1) := by
  obtain ⟨k, hk⟩ : ∃ k, n - p.length = k + 1 := ⟨n - p.length - 1, by omega⟩
  rw [List.take_append, List.take_of_length_le (Nat.le_of_lt h), hk, List.take_succ_cons,
    Nat.add_sub_cancel]

/-- The bytes that both have reach behind the first difference. -/
theorem lt_min_length (p xs ys : List UInt8) (b c : UInt8) :
    p.length < min (p ++ b :: xs).length (p ++ c :: ys).length := by
  simp only [List.length_append, List.length_cons]
  omega

/-- `memcmp` of the bytes that both have tells which case it is. -/
theorem outcome (M : Memcmp) (xs ys : List UInt8) :
    Outcome (M.result (xs.take (min xs.length ys.length)) (ys.take (min xs.length ys.length)))
      xs ys := by
  cases compared xs ys with
  | @less p b c xs ys h =>
      have hlt := lt_min_length p xs ys b c
      rw [take_append_cons p b xs hlt, take_append_cons p c ys hlt]
      exact .less (M.less _ _ _ _ _ h) (append_lt_append p xs ys h)
  | @greater p b c xs ys h =>
      have hlt := lt_min_length p xs ys b c
      rw [take_append_cons p b xs hlt, take_append_cons p c ys hlt]
      exact .greater (M.greater _ _ _ _ _ h) (append_lt_append p ys xs h)
  | shorter _ zs =>
      have hmin : min xs.length (xs ++ zs).length = xs.length := by
        rw [List.length_append]
        omega
      rw [hmin, List.take_length, List.take_left, M.same]
      by_cases hzs : zs = []
      · subst hzs
        rw [List.append_nil]
        exact .equal rfl rfl rfl
      · have hpos := List.length_pos_of_ne_nil hzs
        exact .shorter rfl (by rw [List.length_append]; omega) (lt_append xs hzs)
  | longer _ zs =>
      have hmin : min (ys ++ zs).length ys.length = ys.length := by
        rw [List.length_append]
        omega
      rw [hmin, List.take_length, List.take_left, M.same]
      by_cases hzs : zs = []
      · subst hzs
        rw [List.append_nil]
        exact .equal rfl rfl rfl
      · have hpos := List.length_pos_of_ne_nil hzs
        exact .longer rfl (by rw [List.length_append]; omega) (lt_append ys hzs)

/-! ## The comparisons -/

variable {r : Int} {xs ys : List UInt8}

theorem Outcome.lt_iff (h : Outcome r xs ys) :
    (r < 0 ∨ r = 0 ∧ (xs.length : Int) < ys.length) ↔ xs < ys := by
  cases h with
  | less hr h => exact iff_of_true (Or.inl hr) h
  | greater hr h => exact iff_of_false (by omega) (List.lt_asymm h)
  | shorter hr hlen h => exact iff_of_true (by omega) h
  | equal hr hlen h =>
      subst h
      exact iff_of_false (by omega) (List.lt_irrefl xs)
  | longer hr hlen h => exact iff_of_false (by omega) (List.lt_asymm h)

theorem Outcome.le_iff (h : Outcome r xs ys) :
    (r < 0 ∨ r = 0 ∧ (xs.length : Int) ≤ ys.length) ↔ xs ≤ ys := by
  cases h with
  | less hr h => exact iff_of_true (Or.inl hr) (List.le_of_lt h)
  | greater hr h => exact iff_of_false (by omega) (List.not_le.mpr h)
  | shorter hr hlen h => exact iff_of_true (by omega) (List.le_of_lt h)
  | equal hr hlen h =>
      subst h
      exact iff_of_true (by omega) (List.le_refl xs)
  | longer hr hlen h => exact iff_of_false (by omega) (List.not_le.mpr h)

/-- The same comparison from the other side. -/
theorem Outcome.symm (h : Outcome r xs ys) : Outcome (-r) ys xs := by
  cases h with
  | less hr h => exact .greater (by omega) h
  | greater hr h => exact .less (by omega) h
  | shorter hr hlen h => exact .longer (by omega) hlen h
  | equal hr hlen h => exact .equal (by omega) hlen.symm h.symm
  | longer hr hlen h => exact .shorter (by omega) hlen h

theorem ok_decide {ε : Type} {b : Bool} {p : Prop} [Decidable p] (h : b = true ↔ p) :
    (Except.ok b : Except ε Bool) = .ok (decide p) := by
  rw [Bool.eq_iff_iff.mpr (h.trans decide_eq_true_iff.symm)]

/-- A predicate of the macro tells what the outcome tells of its two comparisons. -/
theorem Held.binaryPredicate_eq (h : s.Held) (hx : x.Held) {cmp auxcmp : Int → Int → Bool}
    {p : Prop} [Decidable p]
    (hp : ∀ r, Outcome r s.content x.content →
      (auxcmp r 0 = true ∨ r = 0 ∧ cmp s.content.length x.content.length = true ↔ p)) :
    binaryPredicate M cmp auxcmp s x = .ok (decide p) := by
  rw [binaryPredicate, h.minLength hx,
    call_content (Nat.min_le_left _ _) (Nat.min_le_right _ _), ok_bind, ← h.length_content,
    ← hx.length_content]
  apply ok_decide
  rw [← hp _ (outcome M s.content x.content), Bool.or_eq_true, Bool.and_eq_true, beq_iff_eq]

theorem Held.lt_eq (h : s.Held) (hx : x.Held) :
    s.lt M x = .ok (decide (s.content < x.content)) := by
  apply h.binaryPredicate_eq hx
  intro r hout
  rw [← hout.lt_iff]
  simp only [decide_eq_true_eq]

theorem Held.le_eq (h : s.Held) (hx : x.Held) :
    s.le M x = .ok (decide (s.content ≤ x.content)) := by
  apply h.binaryPredicate_eq hx
  intro r hout
  rw [← hout.le_iff]
  simp only [decide_eq_true_eq]

theorem Held.gt_eq (h : s.Held) (hx : x.Held) :
    s.gt M x = .ok (decide (x.content < s.content)) := by
  apply h.binaryPredicate_eq hx
  intro r hout
  rw [← hout.symm.lt_iff]
  simp

theorem Held.ge_eq (h : s.Held) (hx : x.Held) :
    s.ge M x = .ok (decide (x.content ≤ s.content)) := by
  apply h.binaryPredicate_eq hx
  intro r hout
  rw [← hout.symm.le_iff]
  simp

/-- A sign tells all of a comparison. -/
theorem sign_of_lt (hr : r < 0) (h : xs < ys) :
    (r < 0 ↔ xs < ys) ∧ (r = 0 ↔ xs = ys) ∧ (0 < r ↔ ys < xs) := by
  have hne : xs ≠ ys := by
    intro heq
    exact List.lt_irrefl ys (heq ▸ h)
  exact ⟨iff_of_true hr h, iff_of_false (by omega) hne,
    iff_of_false (by omega) (List.lt_asymm h)⟩

theorem sign_of_gt (hr : 0 < r) (h : ys < xs) :
    (r < 0 ↔ xs < ys) ∧ (r = 0 ↔ xs = ys) ∧ (0 < r ↔ ys < xs) := by
  have hne : xs ≠ ys := by
    intro heq
    exact List.lt_irrefl ys (heq ▸ h)
  exact ⟨iff_of_false (by omega) (List.lt_asymm h), iff_of_false (by omega) hne,
    iff_of_true hr h⟩

theorem sign_of_eq (hr : r = 0) (h : xs = ys) :
    (r < 0 ↔ xs < ys) ∧ (r = 0 ↔ xs = ys) ∧ (0 < r ↔ ys < xs) := by
  subst h
  exact ⟨iff_of_false (by omega) (List.lt_irrefl xs), iff_of_true hr rfl,
    iff_of_false (by omega) (List.lt_irrefl xs)⟩

theorem Held.compare_eq (h : s.Held) (hx : x.Held) :
    ∃ r, s.compare M x = .ok r ∧ (r < 0 ↔ s.content < x.content) ∧
      (r = 0 ↔ s.content = x.content) ∧ (0 < r ↔ x.content < s.content) := by
  have hs := h.length_content
  have hx' := hx.length_content
  have hout := outcome M s.content x.content
  rw [StringPiece.compare, h.minLength hx,
    call_content (Nat.min_le_left _ _) (Nat.min_le_right _ _), ok_bind]
  generalize M.result _ _ = r at hout ⊢
  cases hout with
  | less hr hlt =>
      rw [if_neg (by omega)]
      exact ⟨r, rfl, sign_of_lt hr hlt⟩
  | greater hr hgt =>
      rw [if_neg (by omega)]
      exact ⟨r, rfl, sign_of_gt hr hgt⟩
  | shorter hr hlen hlt =>
      rw [if_pos hr, if_pos (by omega)]
      exact ⟨-1, rfl, sign_of_lt (by decide) hlt⟩
  | equal hr hlen heq =>
      rw [if_pos hr, if_neg (by omega), if_neg (by omega)]
      exact ⟨r, rfl, sign_of_eq hr heq⟩
  | longer hr hlen hgt =>
      rw [if_pos hr, if_neg (by omega), if_pos (by omega)]
      exact ⟨1, rfl, sign_of_gt (by decide) hgt⟩

/-! ## Equality and prefixes -/

theorem result_eq_zero (M : Memcmp) (h : xs.length = ys.length) :
    M.result xs ys = 0 ↔ xs = ys := by
  have hout := outcome M xs ys
  rw [h, Nat.min_self, List.take_length, ← h, List.take_length] at hout
  cases hout with
  | less hr hlt => exact (sign_of_lt hr hlt).2.1
  | greater hr hgt => exact (sign_of_gt hr hgt).2.1
  | shorter hr hlen hlt => omega
  | equal hr hlen heq => exact (sign_of_eq hr heq).2.1
  | longer hr hlen hgt => omega

theorem Held.eq_eq (h : s.Held) (hx : x.Held) :
    s.eq M x = .ok (decide (s.content = x.content)) := by
  have hs := h.length_content
  have hx' := hx.length_content
  rw [StringPiece.eq]
  by_cases hlen : s.length = x.length
  · have hlen' : s.content.length = x.content.length := by omega
    have hall : x.content.take s.content.length = x.content := by
      rw [hlen', List.take_length]
    rw [if_pos hlen, sizeT, h.toUnsigned_length, call_content (Nat.le_refl _) (by omega), ok_bind,
      List.take_length, hall]
    apply ok_decide
    rw [beq_iff_eq, result_eq_zero M hlen']
  · rw [if_neg hlen, decide_eq_false]
    · rfl
    · intro heq
      have := congrArg List.length heq
      omega

theorem Held.ne_eq (h : s.Held) (hx : x.Held) :
    s.ne M x = .ok (decide (s.content ≠ x.content)) := by
  rw [StringPiece.ne, h.eq_eq hx, ok_bind, pure_eq_ok, decide_not]

theorem Held.startsWith_eq (h : s.Held) (hx : x.Held) :
    s.startsWith M x = .ok (decide (x.content <+: s.content)) := by
  have hs := h.length_content
  have hx' := hx.length_content
  rw [startsWith]
  by_cases hlen : s.length ≥ x.length
  · have hle : x.content.length ≤ s.content.length := by omega
    have htake : (s.content.take x.content.length).length = x.content.length :=
      List.length_take_of_le hle
    rw [if_pos hlen, sizeT, hx.toUnsigned_length, call_content hle (Nat.le_refl _), ok_bind,
      List.take_length]
    apply ok_decide
    rw [beq_iff_eq, result_eq_zero M htake, eq_comm, List.prefix_iff_eq_take]
  · rw [if_neg hlen, decide_eq_false]
    · rfl
    · intro hprefix
      have := hprefix.length_le
      omega

theorem le_of_startsWith (h : xs <+: ys) : xs ≤ ys := by
  obtain ⟨zs, rfl⟩ := h
  by_cases hzs : zs = []
  · rw [hzs, List.append_nil]
    exact List.le_refl xs
  · exact List.le_of_lt (lt_append xs hzs)

/-! ## The order -/

/-- The comparisons of `x` and `y` are those of one order on the bytes. -/
structure Agrees (M : Memcmp) (x y : StringPiece) : Prop where
  lt : x.lt M y = .ok (decide (x.content < y.content))
  le : x.le M y = .ok (decide (x.content ≤ y.content))
  gt : x.gt M y = .ok (decide (y.content < x.content))
  ge : x.ge M y = .ok (decide (y.content ≤ x.content))
  eq : x.eq M y = .ok (decide (x.content = y.content))
  ne : x.ne M y = .ok (decide (x.content ≠ y.content))
  compare : ∃ r, x.compare M y = .ok r ∧ (r < 0 ↔ x.content < y.content) ∧
    (r = 0 ↔ x.content = y.content) ∧ (0 < r ↔ y.content < x.content)
  startsWith : x.startsWith M y = .ok (decide (y.content <+: x.content))

theorem Held.agrees (h : s.Held) (hx : x.Held) : Agrees M s x :=
  ⟨h.lt_eq hx, h.le_eq hx, h.gt_eq hx, h.ge_eq hx, h.eq_eq hx, h.ne_eq hx, h.compare_eq hx,
    h.startsWith_eq hx⟩

theorem Held.le_iff (h : s.Held) (hx : x.Held) :
    s.le M x = .ok true ↔ s.content ≤ x.content := by
  rw [h.le_eq hx, Except.ok.injEq, decide_eq_true_iff]

theorem Held.lt_iff (h : s.Held) (hx : x.Held) :
    s.lt M x = .ok true ↔ s.content < x.content := by
  rw [h.lt_eq hx, Except.ok.injEq, decide_eq_true_iff]

/-- The comparisons of pieces are those of one total order, the lexicographic order on their
bytes; a piece starts with another one exactly if that is a prefix of it, and then it is not
less. -/
theorem stringPiece_order (M : Memcmp) (x y z : { s : StringPiece // s.Held }) :
    Agrees M x.val y.val ∧
      (x.val.content < y.val.content ↔ Precedes x.val.content y.val.content) ∧
      (x.val.content ≤ y.val.content ↔
        Precedes x.val.content y.val.content ∨ x.val.content = y.val.content) ∧
      (x.val.startsWith M y.val = .ok true → y.val.le M x.val = .ok true) ∧
      (x.val.le M y.val = .ok true ∨ y.val.le M x.val = .ok true) ∧
      (x.val.le M y.val = .ok true → y.val.le M x.val = .ok true →
        x.val.eq M y.val = .ok true) ∧
      (x.val.le M y.val = .ok true → y.val.le M z.val = .ok true →
        x.val.le M z.val = .ok true) ∧
      (x.val.lt M y.val = .ok true → y.val.lt M z.val = .ok true →
        x.val.lt M z.val = .ok true) := by
  obtain ⟨x, hx⟩ := x
  obtain ⟨y, hy⟩ := y
  obtain ⟨z, hz⟩ := z
  refine ⟨hx.agrees hy, lt_iff_precedes, ?_, ?_, ?_, ?_, ?_, ?_⟩
  · rw [← lt_iff_precedes]
    exact List.le_iff_lt_or_eq
  · intro hstarts
    rw [hx.startsWith_eq hy, Except.ok.injEq, decide_eq_true_iff] at hstarts
    exact (hy.le_iff hx).mpr (le_of_startsWith hstarts)
  · rw [hx.le_iff hy, hy.le_iff hx]
    exact List.le_total _ _
  · intro hle hge
    rw [hx.eq_eq hy, decide_eq_true]
    exact List.le_antisymm ((hx.le_iff hy).mp hle) ((hy.le_iff hx).mp hge)
  · rw [hx.le_iff hy, hy.le_iff hz, hx.le_iff hz]
    exact List.le_trans
  · rw [hx.lt_iff hy, hy.lt_iff hz, hx.lt_iff hz]
    exact List.lt_trans

/-- The difference of the first two bytes that differ. -/
def firstDifference : List UInt8 → List UInt8 → Int
  | b :: xs, c :: ys => if b = c then firstDifference xs ys else (b.toNat : Int) - c.toNat
  | _, _ => 0

theorem firstDifference_append (p : List UInt8) {b c : UInt8} (xs ys : List UInt8) (h : b ≠ c) :
    firstDifference (p ++ b :: xs) (p ++ c :: ys) = (b.toNat : Int) - c.toNat := by
  induction p with
  | nil => exact if_neg h
  | cons a p ih => rw [List.cons_append, List.cons_append, firstDifference, if_pos rfl, ih]

/-- A `memcmp`. -/
def memcmpBytes : Memcmp where
  result := firstDifference
  same xs := by
    induction xs with
    | nil => rfl
    | cons b xs ih => rw [firstDifference, if_pos rfl, ih]
  less p b c xs ys h := by
    rw [firstDifference_append p xs ys (UInt8.ne_of_lt h)]
    have := UInt8.lt_iff_toNat_lt.mp h
    omega
  greater p b c xs ys h := by
    rw [firstDifference_append p xs ys (UInt8.ne_of_lt h).symm]
    have := UInt8.lt_iff_toNat_lt.mp h
    omega

/-- Bytes above 127, zeros and prefixes. -/
example : StringPiece.lt memcmpBytes ⟨[0, 127], 2⟩ ⟨[0, 128], 2⟩ = .ok true ∧
    StringPiece.lt memcmpBytes ⟨[0], 1⟩ ⟨[0, 0], 2⟩ = .ok true := by
  decide

end StringPiece

end Zing.Base
