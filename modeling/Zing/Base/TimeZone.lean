import Mathlib.Data.List.TakeWhile
import Zing.Base.UtcTime
import Zing.Lib.LowerBound

set_option autoImplicit false

/-! # `TimeZone`: local times

The tables of a zone and the two conversions between an instant and a local time. A vector
index out of range and the assertion of `findLocaltime` are failures. Instants are unbounded
here; `gmtime_r` and `timegm` are parameters.

The second half is about tables that are `Sound`: no index leaves its table, so that no
conversion fails, and about transitions in order, where `findLocaltime` finds the transition
that is in force.
-/

namespace Zing.Base

open Lib

/-! ## The tables -/

/-- `detail::Transition` -/
structure Transition where
  gmttime : Int
  localtime : Int
  localtimeIdx : Int
deriving DecidableEq, Repr

/-- `detail::Comp` -/
structure Comp where
  compareGmt : Bool

/-- The time that `Comp` compares. -/
def Comp.key (comp : Comp) (t : Transition) : Int :=
  if comp.compareGmt then t.gmttime else t.localtime

/-- `operator()` of `detail::Comp` -/
def Comp.less (comp : Comp) (lhs rhs : Transition) : Bool := decide (comp.key lhs < comp.key rhs)

def Comp.equal (comp : Comp) (lhs rhs : Transition) : Bool := decide (comp.key lhs = comp.key rhs)

@[simp] theorem Comp.key_gmt (t : Transition) : (Comp.mk true).key t = t.gmttime := rfl

@[simp] theorem Comp.key_local (t : Transition) : (Comp.mk false).key t = t.localtime := rfl

/-- `detail::Localtime` -/
structure Localtime where
  gmtOffset : Int
  isDst : Bool
  arrbIdx : Int
deriving DecidableEq, Repr

/-- `TimeZone::Data`, less `names`, which is never used. -/
structure Data where
  transitions : List Transition
  localtimes : List Localtime
  abbreviation : List UInt8
deriving DecidableEq, Repr

/-- What goes wrong: an access outside a table, a failing assertion, or a negative array
size. -/
inductive Fault
  | front
  | localtimes
  | transitions
  | abbreviation
  | transIBegin
  | arraySize
deriving DecidableEq, Repr

/-- `v[i]` -/
def index {α : Type} (v : List α) (i : Int) (e : Fault) : Except Fault α :=
  if i < 0 then .error e
  else match v[i.toNat]? with
    | some a => .ok a
    | none => .error e

/-- The characters that `&s[i]` points to, up to the null character. A string may be indexed at
its size. -/
def cString (s : List UInt8) (i : Int) : Except Fault (List UInt8) := do
  check (0 ≤ i ∧ i ≤ s.length) .abbreviation
  return (s.drop i.toNat).takeWhile (· ≠ 0)

/-! ## The conversions -/

/-- `detail::findLocaltime` -/
def findLocaltime (data : Data) (sentry : Transition) (comp : Comp) : Except Fault Localtime :=
  match data.transitions.head? with
  | none => index data.localtimes 0 .front
  | some first =>
      if comp.less sentry first then index data.localtimes 0 .front
      else
        let transI := lowerBound (comp.less · sentry) data.transitions
        match data.transitions[transI]? with
        | some found =>
            if comp.equal sentry found then index data.localtimes found.localtimeIdx .localtimes
            else do
              check (transI ≠ 0) .transIBegin
              let found ← index data.transitions (transI - 1 : Nat) .transitions
              index data.localtimes found.localtimeIdx .localtimes
        -- the end of the vector
        | none => do
            let back ← index data.transitions (data.transitions.length - 1 : Nat) .transitions
            index data.localtimes back.localtimeIdx .localtimes

/-- `TimeZone::toLocalTime` -/
def toLocalTime (gmtime : Int → Tm) (data : Data) (seconds : Int) : Except Fault Tm := do
  let found ← findLocaltime data ⟨seconds, 0, 0⟩ ⟨true⟩
  let localSeconds := seconds + found.gmtOffset
  let zone ← cString data.abbreviation found.arrbIdx
  return { gmtime localSeconds with
    isdst := if found.isDst then 1 else 0
    gmtoff := found.gmtOffset
    zone := some zone }

/-- `TimeZone::fromLocalTime` -/
def fromLocalTime (gmtime : Int → Tm) (timegm : Tm → Int) (data : Data) (localTm : Tm) :
    Except Fault Int := do
  let seconds := timegm localTm
  let found ← findLocaltime data ⟨0, seconds, 0⟩ ⟨false⟩
  if localTm.isdst ≠ 0 then
    let tryTm ← toLocalTime gmtime data (seconds - found.gmtOffset)
    if tryTm.isdst = 0 ∧ tryTm.hour = localTm.hour ∧ tryTm.min = localTm.min then
      return seconds - 3600 - found.gmtOffset
    else
      return seconds - found.gmtOffset
  else
    return seconds - found.gmtOffset

/-! ## Sound tables -/

/-- The indices stay in their tables. -/
structure Indexed (data : Data) : Prop where
  localtimes_ne : data.localtimes ≠ []
  transition_idx : ∀ tr ∈ data.transitions,
    0 ≤ tr.localtimeIdx ∧ tr.localtimeIdx < data.localtimes.length
  abbreviation_idx : ∀ lt ∈ data.localtimes,
    0 ≤ lt.arrbIdx ∧ lt.arrbIdx ≤ data.abbreviation.length

/-- Every type has characters of its own, not only the null character at the end. -/
structure Sound (data : Data) : Prop extends Indexed data where
  abbreviation_lt : ∀ lt ∈ data.localtimes, lt.arrbIdx < data.abbreviation.length

theorem index_eq {α : Type} {v : List α} {i : Int} {e : Fault} {a : α} (h₀ : 0 ≤ i)
    (ha : v[i.toNat]? = some a) : index v i e = .ok a := by
  rw [index, if_neg (by omega), ha]

theorem index_ok {α : Type} {v : List α} {i : Int} {e : Fault} (h₀ : 0 ≤ i)
    (h : i < v.length) : ∃ a ∈ v, index v i e = .ok a := by
  have hlt : i.toNat < v.length := by omega
  exact ⟨v[i.toNat], List.getElem_mem hlt, index_eq h₀ (List.getElem?_eq_getElem hlt)⟩

variable {data : Data} {gmtime : Int → Tm} {timegm : Tm → Int}

theorem front_ok (h : Indexed data) :
    ∃ lt ∈ data.localtimes, index data.localtimes 0 .front = .ok lt := by
  have hpos := List.length_pos_of_ne_nil h.localtimes_ne
  exact index_ok (Int.le_refl 0) (by omega)

/-- In whatever order the transitions are, some type is found. -/
theorem findLocaltime_ok (h : Indexed data) (sentry : Transition) (comp : Comp) :
    ∃ lt ∈ data.localtimes, findLocaltime data sentry comp = .ok lt := by
  have htype : ∀ tr ∈ data.transitions, ∃ lt ∈ data.localtimes,
      index data.localtimes tr.localtimeIdx .localtimes = .ok lt := fun tr htr =>
    index_ok (h.transition_idx tr htr).1 (h.transition_idx tr htr).2
  rw [findLocaltime]
  cases hfirst : data.transitions.head? with
  | none => exact front_ok h
  | some first =>
      have hmem : first ∈ data.transitions := List.mem_of_head? hfirst
      have hpos := List.length_pos_of_mem hmem
      have h0 : data.transitions[0]? = some first := by rw [← List.head?_eq_getElem?, hfirst]
      simp only
      by_cases hless : comp.less sentry first
      · rw [if_pos hless]
        exact front_ok h
      · rw [if_neg hless]
        obtain ⟨hle, -, hnot⟩ := lowerBound_cut (comp.less · sentry) data.transitions
        generalize lowerBound (comp.less · sentry) data.transitions = transI at hle hnot ⊢
        cases hfound : data.transitions[transI]? with
        | none =>
            obtain ⟨back, hback, heq⟩ := index_ok (v := data.transitions)
              (i := (data.transitions.length - 1 : Nat)) (e := .transitions) (by omega) (by omega)
            simp only [heq, ok_bind]
            exact htype back hback
        | some found =>
            simp only
            by_cases hequal : comp.equal sentry found
            · rw [if_pos hequal]
              exact htype found (List.mem_of_getElem? hfound)
            · rw [if_neg hequal]
              -- the first transition is not found, or it would be the sentry's
              have hne : transI ≠ 0 := by
                rintro rfl
                rw [h0] at hfound
                cases hfound
                have hback := hnot first h0
                simp only [Comp.less, Comp.equal, decide_eq_true_eq, decide_eq_false_iff_not]
                  at hless hequal hback
                omega
              obtain ⟨prev, hprev, heq⟩ := index_ok (v := data.transitions)
                (i := (transI - 1 : Nat)) (e := .transitions) (by omega) (by omega)
              simp only [check_bind hne, heq, ok_bind]
              exact htype prev hprev

theorem toLocalTime_ok (h : Indexed data) (seconds : Int) :
    ∃ tm, toLocalTime gmtime data seconds = .ok tm := by
  obtain ⟨lt, hlt, hfind⟩ := findLocaltime_ok h ⟨seconds, 0, 0⟩ ⟨true⟩
  rw [toLocalTime, hfind, ok_bind, cString, check_bind (h.abbreviation_idx lt hlt)]
  exact ⟨_, rfl⟩

theorem fromLocalTime_ok (h : Indexed data) (localTm : Tm) :
    ∃ t, fromLocalTime gmtime timegm data localTm = .ok t := by
  obtain ⟨lt, -, hfind⟩ := findLocaltime_ok h ⟨0, timegm localTm, 0⟩ ⟨false⟩
  obtain ⟨tm, htm⟩ : ∃ tm, toLocalTime gmtime data (timegm localTm - lt.gmtOffset) = .ok tm :=
    toLocalTime_ok h _
  simp only [fromLocalTime, hfind, htm, ok_bind, pure_eq_ok]
  split
  · split
    · exact ⟨_, rfl⟩
    · exact ⟨_, rfl⟩
  · exact ⟨_, rfl⟩

/-! ## Transitions in order -/

instance : Inhabited Localtime := ⟨⟨0, false, 0⟩⟩

/-- The type that a transition changes to. -/
def typeOf (data : Data) (tr : Transition) : Localtime :=
  data.localtimes.getD tr.localtimeIdx.toNat default

/-- The type in force after the transitions `l`, which is the first type if there are none. -/
def typeAfter (data : Data) (l : List Transition) : Localtime :=
  match l.getLast? with
  | none => data.localtimes.headD default
  | some tr => typeOf data tr

/-- The type in force at the instant `t`. -/
def typeAt (data : Data) (t : Int) : Localtime :=
  typeAfter data (data.transitions.takeWhile fun tr => decide (tr.gmttime ≤ t))

theorem index_typeOf (h : Indexed data) {tr : Transition} (htr : tr ∈ data.transitions)
    (e : Fault) : index data.localtimes tr.localtimeIdx e = .ok (typeOf data tr) := by
  obtain ⟨h₀, h₁⟩ := h.transition_idx tr htr
  have hlt : tr.localtimeIdx.toNat < data.localtimes.length := by omega
  apply index_eq h₀
  rw [typeOf, List.getD_eq_getElem?_getD, List.getElem?_eq_getElem hlt]
  rfl

theorem index_front (h : Indexed data) (e : Fault) :
    index data.localtimes 0 e = .ok (typeAfter data []) := by
  obtain ⟨lt, rest, hl⟩ := List.exists_cons_of_ne_nil h.localtimes_ne
  apply index_eq (Int.le_refl 0)
  rw [typeAfter, hl]
  rfl

/-- Where the search stops in a list in order: at the last transition that is not after the
sentry, or behind it. -/
theorem lowerBound_last {sentry tr : Transition} {comp : Comp} {A B : List Transition}
    (hl : (A ++ tr :: B).Pairwise fun a b => comp.key a < comp.key b)
    (htr : comp.key tr ≤ comp.key sentry)
    (hB : ∀ b, B.head? = some b → comp.key sentry < comp.key b) :
    lowerBound (comp.less · sentry) (A ++ tr :: B)
      = if comp.key tr = comp.key sentry then A.length else A.length + 1 := by
  have hmono : (A ++ tr :: B).Pairwise fun a b =>
      comp.less b sentry = true → comp.less a sentry = true := by
    refine hl.imp fun hab hb => ?_
    simp only [Comp.less, decide_eq_true_eq] at hb ⊢
    omega
  have hget : (A ++ tr :: B)[A.length]? = some tr := by simp
  have hnext : (A ++ tr :: B)[A.length + 1]? = B.head? := by
    rw [List.getElem?_append_right (by omega), List.head?_eq_getElem?]
    simp
  have hpart : ∀ j a, (A ++ tr :: B)[j]? = some a →
      (comp.key a < comp.key sentry ↔ j < lowerBound (comp.less · sentry) (A ++ tr :: B)) := by
    intro j a ha
    rw [← lowerBound_partition hmono ha, Comp.less, decide_eq_true_eq]
  obtain ⟨hle, -, -⟩ := lowerBound_cut (comp.less · sentry) (A ++ tr :: B)
  generalize lowerBound (comp.less · sentry) (A ++ tr :: B) = i at hpart hle ⊢
  have hat := hpart A.length tr hget
  by_cases heq : comp.key tr = comp.key sentry
  · rw [if_pos heq]
    by_contra hne
    -- the transitions in front of `tr` are before the sentry
    have hi : i < A.length := by omega
    have ha : (A ++ tr :: B)[i]? = some A[i] := by
      rw [List.getElem?_append_left hi, List.getElem?_eq_getElem hi]
    have hfront : comp.key A[i] < comp.key tr :=
      (List.pairwise_append.mp hl).2.2 _ (List.getElem_mem hi) tr List.mem_cons_self
    have := hpart i _ ha
    omega
  · rw [if_neg heq]
    by_contra hne
    have hi : A.length + 1 < (A ++ tr :: B).length := by omega
    have hb := List.getElem?_eq_getElem hi
    have hback := hB _ (hnext.symm.trans hb)
    have := hpart _ _ hb
    omega

/-- In a list in order, the search finds the last transition that is not after the sentry. -/
theorem findLocaltime_eq (h : Indexed data) {sentry : Transition} {comp : Comp}
    (hl : data.transitions.Pairwise fun a b => comp.key a < comp.key b) :
    findLocaltime data sentry comp = .ok (typeAfter data
      (data.transitions.takeWhile fun tr => decide (comp.key tr ≤ comp.key sentry))) := by
  obtain ⟨A, hA⟩ : ∃ A, A = data.transitions.takeWhile fun tr =>
    decide (comp.key tr ≤ comp.key sentry) := ⟨_, rfl⟩
  obtain ⟨B, hB⟩ : ∃ B, B = data.transitions.dropWhile fun tr =>
    decide (comp.key tr ≤ comp.key sentry) := ⟨_, rfl⟩
  have hsplit : data.transitions = A ++ B := by rw [hA, hB, List.takeWhile_append_dropWhile]
  have hbefore : ∀ a ∈ A, comp.key a ≤ comp.key sentry := by
    intro a ha
    rw [hA] at ha
    simpa using List.mem_takeWhile_imp ha
  have hafter : ∀ b, B.head? = some b → comp.key sentry < comp.key b := by
    intro b hb
    have hnot := List.head?_dropWhile_not (fun tr => decide (comp.key tr ≤ comp.key sentry))
      data.transitions
    rw [← hB, hb] at hnot
    simpa using hnot
  rw [← hA]
  clear hA hB
  rcases List.eq_nil_or_concat A with rfl | ⟨A', tr, rfl⟩
  · rw [List.nil_append] at hsplit
    rw [findLocaltime, hsplit]
    cases hfirst : B.head? with
    | none => exact index_front h _
    | some first =>
        have hless : comp.less sentry first = true := by
          simpa [Comp.less] using hafter first hfirst
        simp only [if_pos hless]
        exact index_front h _
  · have htr := hbefore tr (by simp)
    have hget : (A' ++ tr :: B)[A'.length]? = some tr := by simp
    have hmem : tr ∈ data.transitions := by simp [hsplit]
    have hfound : ∀ e, index data.localtimes tr.localtimeIdx e = .ok (typeOf data tr) :=
      index_typeOf h hmem
    have hafter' : typeAfter data (A' ++ [tr]) = typeOf data tr := by simp [typeAfter]
    rw [List.concat_eq_append] at hsplit hbefore ⊢
    rw [List.append_assoc, List.singleton_append] at hsplit
    rw [hafter']
    rw [hsplit] at hl
    have hlast := lowerBound_last hl htr hafter
    obtain ⟨first, hfirst, hle⟩ : ∃ first, (A' ++ tr :: B).head? = some first ∧
        comp.key first ≤ comp.key sentry := by
      cases A' with
      | nil => exact ⟨tr, rfl, htr⟩
      | cons a A' => exact ⟨a, rfl, hbefore a (by simp)⟩
    have hless : ¬ comp.less sentry first = true := by
      simp only [Comp.less, decide_eq_true_eq]
      omega
    rw [findLocaltime, hsplit, hfirst]
    simp only [if_neg hless, hlast]
    by_cases heq : comp.key tr = comp.key sentry
    · have hequal : comp.equal sentry tr = true := by simp [Comp.equal, heq]
      simp only [if_pos heq, hget, if_pos hequal, hfound]
    · simp only [if_neg heq]
      cases hnext : (A' ++ tr :: B)[A'.length + 1]? with
      | none =>
          have hlen : (A' ++ tr :: B).length - 1 = A'.length := by
            rw [List.getElem?_eq_none_iff] at hnext
            simp only [List.length_append, List.length_cons] at hnext ⊢
            omega
          have hback : index (A' ++ tr :: B) (A'.length : Nat) .transitions = .ok tr :=
            index_eq (by omega) hget
          simp only [hlen, hback, ok_bind, hfound]
      | some found =>
          have hb : B.head? = some found := by
            rw [List.getElem?_append_right (by omega)] at hnext
            simpa [List.head?_eq_getElem?] using hnext
          have hequal : ¬ comp.equal sentry found = true := by
            have := hafter found hb
            simp only [Comp.equal, decide_eq_true_eq]
            omega
          have hprev : index (A' ++ tr :: B) (A'.length + 1 - 1 : Nat) .transitions = .ok tr :=
            index_eq (by omega) hget
          simp only [if_neg hequal, check_bind (Nat.succ_ne_zero _), hprev, ok_bind, hfound]

end Zing.Base
