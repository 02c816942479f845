import Mathlib.Data.List.Infix
import Mathlib.Data.Nat.Find

set_option autoImplicit false

/-! # Searching a list for a pattern

`firstMatch pat l` is the first position of `l` at which `pat` stands. What is appended to `l`
does not move a position that has been found, and where nothing has been found the search may
be resumed shortly before the end of `l`.

`Frames pat stream lines rest` cuts a stream at the pattern: `lines` are the pieces that `pat`
ends, `rest` is what follows the last of them. There is one way to do so where `rest` holds no
further pattern (`Frames.unique`), so it does not matter in which portions a stream comes.
-/

namespace Zing.Lib

variable {α : Type} [DecidableEq α] {pat l m : List α} {i s : Nat}

/-- The first position at which `pat` stands. -/
def firstMatch (pat : List α) : List α → Option Nat
  | [] => if pat = [] then some 0 else none
  | a :: l => if pat <+: a :: l then some 0 else (firstMatch pat l).map (· + 1)

theorem firstMatch_eq_some :
    firstMatch pat l = some i ↔ pat <+: l.drop i ∧ ∀ j < i, ¬ pat <+: l.drop j := by
  induction l generalizing i with
  | nil =>
      rw [firstMatch]
      by_cases hp : pat = []
      · subst hp
        rw [if_pos rfl, Option.some.injEq]
        constructor
        · rintro rfl
          exact ⟨List.nil_prefix, fun j hj => absurd hj (Nat.not_lt_zero j)⟩
        · rintro ⟨-, hbefore⟩
          by_contra hne
          exact hbefore 0 (Nat.pos_of_ne_zero (Ne.symm hne)) List.nil_prefix
      · rw [if_neg hp, List.drop_nil, List.prefix_nil]
        exact iff_of_false nofun fun h => hp h.1
  | cons a l ih =>
      rw [firstMatch]
      by_cases hp : pat <+: a :: l
      · rw [if_pos hp, Option.some.injEq]
        constructor
        · rintro rfl
          exact ⟨hp, fun j hj => absurd hj (Nat.not_lt_zero j)⟩
        · rintro ⟨-, hbefore⟩
          by_contra hne
          exact hbefore 0 (Nat.pos_of_ne_zero (Ne.symm hne)) hp
      · rw [if_neg hp]
        cases i with
        | zero =>
            rw [List.drop_zero]
            exact iff_of_false (by simp) fun h => hp h.1
        | succ i =>
            simp only [Option.map_eq_some_iff, Nat.add_right_cancel_iff, exists_eq_right, ih,
              List.drop_succ_cons]
            constructor
            · rintro ⟨hat, hbefore⟩
              refine ⟨hat, fun j hj => ?_⟩
              cases j with
              | zero => exact hp
              | succ j => exact hbefore j (Nat.lt_of_succ_lt_succ hj)
            · rintro ⟨hat, hbefore⟩
              exact ⟨hat, fun j hj => hbefore (j + 1) (Nat.succ_lt_succ hj)⟩

theorem firstMatch_eq_none : firstMatch pat l = none ↔ ∀ j, ¬ pat <+: l.drop j := by
  constructor
  · intro hnone j hj
    have hfirst := Nat.find_spec (⟨j, hj⟩ : ∃ j, pat <+: l.drop j)
    have hsome := firstMatch_eq_some.mpr ⟨hfirst, fun k hk => Nat.find_min _ hk⟩
    rw [hnone] at hsome
    cases hsome
  · intro hno
    cases h : firstMatch pat l with
    | none => rfl
    | some i => exact absurd (firstMatch_eq_some.mp h).1 (hno i)

/-- What is found lies within the list. -/
theorem firstMatch_le (h : firstMatch pat l = some i) (hp : pat ≠ []) :
    i + pat.length ≤ l.length := by
  have hlen := (firstMatch_eq_some.mp h).1.length_le
  have hpos := List.length_pos_iff.mpr hp
  rw [List.length_drop] at hlen
  omega

/-- The list from what has been found on. -/
theorem drop_of_firstMatch (h : firstMatch pat l = some i) :
    l.drop i = pat ++ l.drop (i + pat.length) := by
  obtain ⟨rest, hrest⟩ := (firstMatch_eq_some.mp h).1
  rw [← hrest, ← List.drop_drop, ← hrest, List.drop_left]

omit [DecidableEq α] in
/-- In `l ++ m` the pattern stands within `l` where it does in `l`. -/
theorem prefix_drop_append {j : Nat} (hj : j + pat.length ≤ l.length) :
    pat <+: (l ++ m).drop j ↔ pat <+: l.drop j := by
  rw [List.drop_append_of_le_length (by omega)]
  constructor
  · intro h
    apply List.prefix_of_prefix_length_le h (List.prefix_append _ _)
    rw [List.length_drop]
    omega
  · intro h
    exact h.trans (List.prefix_append _ _)

/-- What has been found stays found. -/
theorem firstMatch_append (h : firstMatch pat l = some i) (hp : pat ≠ []) (m : List α) :
    firstMatch pat (l ++ m) = some i := by
  have hle := firstMatch_le h hp
  obtain ⟨hat, hbefore⟩ := firstMatch_eq_some.mp h
  refine firstMatch_eq_some.mpr ⟨(prefix_drop_append hle).mpr hat, fun j hj hat' => ?_⟩
  exact hbefore j hj ((prefix_drop_append (by omega)).mp hat')

/-- A search that leaves out what is known not to begin the pattern. -/
theorem firstMatch_skip (hno : ∀ j < s, ¬ pat <+: l.drop j) :
    firstMatch pat l = (firstMatch pat (l.drop s)).map (s + ·) := by
  cases h : firstMatch pat (l.drop s) with
  | none =>
      refine firstMatch_eq_none.mpr fun j => ?_
      by_cases hj : j < s
      · exact hno j hj
      · have hfar := firstMatch_eq_none.mp h (j - s)
        rwa [List.drop_drop, Nat.add_sub_cancel' (by omega)] at hfar
  | some i =>
      obtain ⟨hat, hbefore⟩ := firstMatch_eq_some.mp h
      rw [List.drop_drop] at hat
      refine firstMatch_eq_some.mpr ⟨hat, fun j hj => ?_⟩
      have hj : j < s + i := hj
      by_cases hlt : j < s
      · exact hno j hlt
      · have hfar := hbefore (j - s) (by omega)
        rwa [List.drop_drop, Nat.add_sub_cancel' (by omega)] at hfar

/-! ## Cutting a stream at the pattern -/

/-- The pattern stands first right behind the line. -/
def Terminated (pat line : List α) : Prop := firstMatch pat (line ++ pat) = some line.length

/-- The stream is the lines, each with the pattern behind it, and then the rest. -/
structure Frames (pat stream : List α) (lines : List (List α)) (rest : List α) : Prop where
  stream : stream = (lines.map (· ++ pat)).flatten ++ rest
  terminated : ∀ line ∈ lines, Terminated pat line

variable {stream stream' rest rest' : List α} {lines lines' : List (List α)}

theorem frames_nil (pat : List α) : Frames pat [] [] [] := ⟨rfl, nofun⟩

/-- More of the stream. -/
theorem Frames.append (h : Frames pat stream lines rest) (m : List α) :
    Frames pat (stream ++ m) lines (rest ++ m) := by
  refine ⟨?_, h.terminated⟩
  rw [h.stream, List.append_assoc]

/-- One more line. -/
theorem Frames.next (h : Frames pat stream lines rest) (hp : pat ≠ [])
    (hi : firstMatch pat rest = some i) :
    Frames pat stream (lines ++ [rest.take i]) (rest.drop (i + pat.length)) := by
  have hle := firstMatch_le hi hp
  have hlen : (rest.take i).length = i := List.length_take_of_le (by omega)
  have hsplit : rest.take i ++ pat ++ rest.drop (i + pat.length) = rest := by
    rw [List.append_assoc, ← drop_of_firstMatch hi, List.take_append_drop]
  constructor
  · rw [h.stream, List.map_append, List.flatten_append, List.map_singleton,
      List.flatten_singleton, List.append_assoc, hsplit]
  · intro line hline
    rcases List.mem_append.mp hline with hline | hline
    · exact h.terminated line hline
    · rw [List.mem_singleton.mp hline, Terminated, hlen]
      obtain ⟨-, hbefore⟩ := firstMatch_eq_some.mp hi
      refine firstMatch_eq_some.mpr ⟨?_, fun j hj hat => hbefore j hj ?_⟩
      · rw [List.drop_left' hlen]
      · rw [← hsplit]
        refine (prefix_drop_append ?_).mpr hat
        rw [List.length_append, hlen]
        omega

/-- The first line of a stream is found. -/
theorem Frames.firstMatch_cons {line : List α} (h : Frames pat stream (line :: lines) rest)
    (hp : pat ≠ []) : firstMatch pat stream = some line.length := by
  rw [h.stream, List.map_cons, List.flatten_cons, List.append_assoc]
  exact firstMatch_append (h.terminated line List.mem_cons_self) hp _

/-- There is one way to cut a stream into lines and a rest without the pattern. -/
theorem Frames.unique (h : Frames pat stream lines rest) (h' : Frames pat stream lines' rest')
    (hp : pat ≠ []) (hrest : firstMatch pat rest = none) (hrest' : firstMatch pat rest' = none) :
    lines = lines' ∧ rest = rest' := by
  induction lines generalizing stream lines' with
  | nil =>
      have hnone : firstMatch pat stream = none := h.stream ▸ hrest
      cases lines' with
      | nil => exact ⟨rfl, h.stream.symm.trans h'.stream⟩
      | cons line' lines' =>
          rw [h'.firstMatch_cons hp] at hnone
          cases hnone
  | cons line lines ih =>
      have hsome := h.firstMatch_cons hp
      cases lines' with
      | nil =>
          have hnone : firstMatch pat stream = none := h'.stream ▸ hrest'
          rw [hnone] at hsome
          cases hsome
      | cons line' lines' =>
          have hlen : line.length = line'.length :=
            Option.some.inj (hsome.symm.trans (h'.firstMatch_cons hp))
          have hsame := h.stream.symm.trans h'.stream
          simp only [List.map_cons, List.flatten_cons, List.append_assoc] at hsame
          obtain ⟨hline, hbehind⟩ := List.append_inj hsame hlen
          have hbehind := List.append_cancel_left hbehind
          have hframes : Frames pat _ lines rest :=
            ⟨rfl, fun l hl => h.terminated l (List.mem_cons_of_mem _ hl)⟩
          have hframes' : Frames pat _ lines' rest' :=
            ⟨hbehind, fun l hl => h'.terminated l (List.mem_cons_of_mem _ hl)⟩
          obtain ⟨hlines, hrests⟩ := ih hframes hframes'
          exact ⟨by rw [hline, hlines], hrests⟩

end Zing.Lib
