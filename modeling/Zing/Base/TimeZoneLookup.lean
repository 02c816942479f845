import Zing.Base.TimeZone

set_option autoImplicit false

/-! # The transition in force

`inForce` is what a zone says about an instant: the type of the last transition that is not
after it, and the first type of the table before all transitions. In a list in order this is
what the binary search of `findLocaltime` comes to, by either of the two times that `Comp` can
compare, and the offset of `toLocalTime` steps exactly at the transitions.
-/

namespace Zing.Base

open Lib

/-- The type in force at the time `t`, by the time that `comp` compares. -/
def inForce (comp : Comp) (data : Data) (t : Int) : Option Localtime :=
  match (data.transitions.filter fun tr => decide (comp.key tr ≤ t)).getLast? with
  | some tr => data.localtimes[tr.localtimeIdx.toNat]?
  | none => data.localtimes.head?

/-- The transitions are strictly increasing in the time that `comp` compares. -/
def Increasing (comp : Comp) (data : Data) : Prop :=
  data.transitions.Pairwise fun a b => comp.key a < comp.key b

variable {data : Data} {comp : Comp} {t t' : Int}

theorem takeWhile_eq_filter {α : Type} {p : α → Bool} {l : List α}
    (h : l.Pairwise fun a b => p b = true → p a = true) : l.takeWhile p = l.filter p := by
  induction l with
  | nil => rfl
  | cons a l ih =>
      obtain ⟨ha, hl⟩ := List.pairwise_cons.mp h
      by_cases hp : p a = true
      · rw [List.takeWhile_cons_of_pos hp, List.filter_cons_of_pos hp, ih hl]
      · have hnone : l.filter p = [] := by
          rw [List.filter_eq_nil_iff]
          exact fun b hb hpb => hp (ha b hb hpb)
        rw [List.takeWhile_cons_of_neg hp, List.filter_cons_of_neg hp, hnone]

/-- In a list in order the transitions that are not after `t` stand first. -/
theorem Increasing.takeWhile_eq (h : Increasing comp data) (t : Int) :
    data.transitions.takeWhile (fun tr => decide (comp.key tr ≤ t))
      = data.transitions.filter fun tr => decide (comp.key tr ≤ t) := by
  apply takeWhile_eq_filter
  refine h.imp fun hab hb => ?_
  simp only [decide_eq_true_eq] at hb ⊢
  omega

/-- The type after a part of the transitions, as an entry of the table. -/
theorem getElem?_typeAfter (h : Indexed data) {l : List Transition}
    (hl : ∀ tr ∈ l, tr ∈ data.transitions) :
    some (typeAfter data l) = match l.getLast? with
      | some tr => data.localtimes[tr.localtimeIdx.toNat]?
      | none => data.localtimes.head? := by
  rw [typeAfter]
  cases hlast : l.getLast? with
  | none =>
      obtain ⟨lt, rest, hlt⟩ := List.exists_cons_of_ne_nil h.localtimes_ne
      simp [hlt]
  | some tr =>
      obtain ⟨h₀, h₁⟩ := h.transition_idx tr (hl tr (List.mem_of_getLast? hlast))
      have hlt : tr.localtimeIdx.toNat < data.localtimes.length := by omega
      simp [typeOf, List.getElem?_eq_getElem hlt]

theorem findLocaltime_inForce (h : Indexed data) (hl : Increasing comp data)
    (sentry : Transition) : ∃ lt, findLocaltime data sentry comp = .ok lt ∧
      inForce comp data (comp.key sentry) = some lt := by
  have hfind : findLocaltime data sentry comp = _ := findLocaltime_eq h hl
  rw [hl.takeWhile_eq] at hfind
  refine ⟨_, hfind, ?_⟩
  rw [inForce, getElem?_typeAfter h fun tr htr => (List.mem_filter.mp htr).1]

/-! ## Between and at the transitions -/

theorem inForce_congr (h : ∀ tr ∈ data.transitions, comp.key tr ≤ t ↔ comp.key tr ≤ t') :
    inForce comp data t = inForce comp data t' := by
  have heq : (data.transitions.filter fun tr => decide (comp.key tr ≤ t))
      = data.transitions.filter fun tr => decide (comp.key tr ≤ t') := by
    apply List.filter_congr
    intro tr htr
    simp only [h tr htr]
  rw [inForce, inForce, heq]

/-- Up to a transition that is not after `t`, if the others behind it are. -/
theorem filter_split {A B : List Transition} (comp : Comp) (t : Int)
    (hsplit : data.transitions = A ++ B)
    (hA : ∀ a ∈ A, comp.key a ≤ t) (hB : ∀ b ∈ B, t < comp.key b) :
    (data.transitions.filter fun tr => decide (comp.key tr ≤ t)) = A := by
  rw [hsplit, List.filter_append]
  have hall : (A.filter fun tr => decide (comp.key tr ≤ t)) = A := by
    rw [List.filter_eq_self]
    simpa using hA
  have hnone : (B.filter fun tr => decide (comp.key tr ≤ t)) = [] := by
    rw [List.filter_eq_nil_iff]
    intro b hb
    have := hB b hb
    simp only [decide_eq_true_eq]
    omega
  rw [hall, hnone, List.append_nil]

/-- What is in force at a transition, and just before it. -/
theorem Increasing.inForce_at (h : Increasing comp data) {A B : List Transition}
    {tr : Transition} (hsplit : data.transitions = A ++ tr :: B) :
    inForce comp data (comp.key tr) = data.localtimes[tr.localtimeIdx.toNat]? ∧
      inForce comp data (comp.key tr - 1) = match A.getLast? with
        | some before => data.localtimes[before.localtimeIdx.toNat]?
        | none => data.localtimes.head? := by
  rw [Increasing, hsplit, List.pairwise_append] at h
  obtain ⟨-, htail, hcross⟩ := h
  obtain ⟨hafter, -⟩ := List.pairwise_cons.mp htail
  have hbefore : ∀ a ∈ A, comp.key a < comp.key tr := fun a ha =>
    hcross a ha tr List.mem_cons_self
  constructor
  · have hsplit' : data.transitions = (A ++ [tr]) ++ B := by
      rw [hsplit, List.append_assoc, List.singleton_append]
    have hupto := filter_split comp (comp.key tr) hsplit' ?_ hafter
    · rw [inForce, hupto, List.getLast?_concat]
    · intro a ha
      rcases List.mem_append.mp ha with ha | ha
      · exact (hbefore a ha).le
      · rw [List.mem_singleton.mp ha]
  · have hupto := filter_split comp (comp.key tr - 1) hsplit ?_ ?_
    · rw [inForce, hupto]
    · intro a ha
      have := hbefore a ha
      omega
    · intro b hb
      rcases List.mem_cons.mp hb with rfl | hb
      · omega
      · have := hafter b hb
        omega

/-! ## The offset of a local time -/

/-- `tm_gmtoff` of the local time. -/
def offsetAt (gmtime : Int → Tm) (data : Data) (t : Int) : Except Fault Int := do
  let tm ← toLocalTime gmtime data t
  return tm.gmtoff

theorem offsetAt_eq (gmtime : Int → Tm) (h : Indexed data) (hl : Increasing ⟨true⟩ data) (t : Int) :
    ∃ lt, inForce ⟨true⟩ data t = some lt ∧ offsetAt gmtime data t = .ok lt.gmtOffset := by
  obtain ⟨lt, hfind, hforce⟩ := findLocaltime_inForce h hl ⟨t, 0, 0⟩
  obtain ⟨lt', hmem, hfind'⟩ := findLocaltime_ok h ⟨t, 0, 0⟩ ⟨true⟩
  rw [hfind] at hfind'
  cases hfind'
  refine ⟨lt, hforce, ?_⟩
  rw [offsetAt, toLocalTime, hfind, ok_bind, cString, check_bind (h.abbreviation_idx lt hmem)]
  rfl

/-- In a zone whose transitions are in order, `findLocaltime` gives the type of the last
transition that is not after the instant, or the first type if there is none, and does not
fail; the offset of `toLocalTime` is constant between the transitions, and at each of them it
changes from the one before to that of the transition. With local times in order the same holds
of the other comparison. -/
theorem findLocaltime_right (gmtime : Int → Tm) (data : Data) (h : Indexed data) :
    (Increasing ⟨true⟩ data →
      (∀ t, ∃ lt, findLocaltime data ⟨t, 0, 0⟩ ⟨true⟩ = .ok lt ∧
        inForce ⟨true⟩ data t = some lt ∧ offsetAt gmtime data t = .ok lt.gmtOffset) ∧
      (∀ t t', t ≤ t' → (∀ tr ∈ data.transitions, tr.gmttime ≤ t ∨ t' < tr.gmttime) →
        offsetAt gmtime data t = offsetAt gmtime data t') ∧
      ∀ A tr B, data.transitions = A ++ tr :: B →
        ∃ before after, offsetAt gmtime data (tr.gmttime - 1) = .ok before.gmtOffset ∧
          offsetAt gmtime data tr.gmttime = .ok after.gmtOffset ∧
          data.localtimes[tr.localtimeIdx.toNat]? = some after ∧
          (∀ last, A.getLast? = some last →
            data.localtimes[last.localtimeIdx.toNat]? = some before) ∧
          (A = [] → data.localtimes.head? = some before)) ∧
    (Increasing ⟨false⟩ data → ∀ t, ∃ lt, findLocaltime data ⟨0, t, 0⟩ ⟨false⟩ = .ok lt ∧
      inForce ⟨false⟩ data t = some lt) := by
  constructor
  · intro hl
    refine ⟨?_, ?_, ?_⟩
    · intro t
      obtain ⟨lt, hforce, hoff⟩ := offsetAt_eq gmtime h hl t
      obtain ⟨lt', hfind, hforce'⟩ := findLocaltime_inForce h hl ⟨t, 0, 0⟩
      have heq : lt = lt' := Option.some.inj (hforce.symm.trans hforce')
      exact ⟨lt, by rw [hfind, heq], hforce, hoff⟩
    · intro t t' hle hnone
      obtain ⟨lt, hforce, hoff⟩ := offsetAt_eq gmtime h hl t
      obtain ⟨lt', hforce', hoff'⟩ := offsetAt_eq gmtime h hl t'
      have hsame : inForce ⟨true⟩ data t = inForce ⟨true⟩ data t' := by
        apply inForce_congr
        intro tr htr
        have := hnone tr htr
        simp only [Comp.key_gmt]
        omega
      rw [hforce, hforce', Option.some.injEq] at hsame
      rw [hoff, hoff', hsame]
    · intro A tr B hsplit
      obtain ⟨hat, hbefore⟩ := hl.inForce_at hsplit
      simp only [Comp.key_gmt] at hat hbefore
      obtain ⟨before, hforce, hoff⟩ := offsetAt_eq gmtime h hl (tr.gmttime - 1)
      obtain ⟨after, hforce', hoff'⟩ := offsetAt_eq gmtime h hl tr.gmttime
      rw [hforce] at hbefore
      refine ⟨before, after, hoff, hoff', by rw [← hat, hforce'], ?_, ?_⟩
      · intro last hlast
        rw [hlast] at hbefore
        exact hbefore.symm
      · rintro rfl
        exact hbefore.symm
  · intro hl t
    exact findLocaltime_inForce h hl ⟨0, t, 0⟩

/-- Two transitions: from standard time to summer time and back. -/
def summerZone : Data where
  transitions := [⟨100, 100 + 7200, 1⟩, ⟨20000, 20000 + 3600, 0⟩]
  localtimes := [⟨3600, false, 0⟩, ⟨7200, true, 4⟩]
  abbreviation := [67, 69, 84, 0, 67, 69, 83, 84, 0]

theorem findLocaltime_right_summer :
    ∃ before after : Localtime,
      offsetAt (fun _ => Tm.zero) summerZone 99 = .ok before.gmtOffset ∧
      offsetAt (fun _ => Tm.zero) summerZone 100 = .ok after.gmtOffset ∧ after.isDst = true := by
  have hindexed : Indexed summerZone := ⟨by decide, by decide, by decide⟩
  have hsorted : Increasing ⟨true⟩ summerZone := by
    simp [Increasing, summerZone]
  obtain ⟨before, after, hbefore, hafter, hget, -⟩ :=
    ((findLocaltime_right (fun _ => Tm.zero) summerZone hindexed).1 hsorted).2.2 []
      ⟨100, 100 + 7200, 1⟩ _ rfl
  refine ⟨before, after, hbefore, hafter, ?_⟩
  cases hget
  rfl

end Zing.Base
