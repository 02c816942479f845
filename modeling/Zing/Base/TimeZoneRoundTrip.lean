import Zing.Base.TimeZoneFile

set_option autoImplicit false

/-! # From an instant to its local time and back

`fromLocalTime` looks for the last transition whose local time is not after the reading. That
is the transition in force at the instant, or the one after it: the latter where the clock is
put back before it shows the reading a second time, and the instant is the first of the two.
There the correction by an hour is right only for a change of an hour from summer time.
-/

namespace Zing.Base

open Lib

variable {data : Data}

/-! ## Zones -/

/-- Tables as they are loaded. -/
structure Loaded (data : Data) : Prop extends Indexed data where
  localtime_eq : ∀ tr ∈ data.transitions, tr.localtime = tr.gmttime + (typeOf data tr).gmtOffset

/-- The tables of a zone file are so. -/
theorem loaded_of_file {o : ByteOrder} {zonefile : Option (List UInt8)} {z : TimeZone}
    (hfile : IsZoneFile zonefile) (hz : TimeZone.ofFile o zonefile = .ok z)
    (hdata : z.data = some data) : Loaded data := by
  obtain ⟨c, rest, rfl, hne, hidx, habbr⟩ := hfile
  rw [ofFile_encode hidx] at hz
  cases hz
  cases hdata
  have hsound := (sound_data_iff hidx).mpr ⟨hne, habbr⟩
  refine ⟨hsound.toIndexed, ?_⟩
  intro tr htr
  obtain ⟨p, -, rfl⟩ := List.mem_map.mp htr
  rfl

/-- The changes of the offset by the transitions of a list, if the offset is `o` before. -/
def changes (data : Data) : Int → List Transition → List Int
  | _, [] => []
  | o, tr :: rest =>
      ((typeOf data tr).gmtOffset - o) :: changes data (typeOf data tr).gmtOffset rest

/-- All the changes of the offset in a zone. -/
def allChanges (data : Data) : List Int :=
  changes data (typeAfter data []).gmtOffset data.transitions

/-- The transitions are in order, and further apart than any two changes add up to. -/
structure Spread (data : Data) : Prop where
  increasing : data.transitions.Pairwise fun a b => a.gmttime < b.gmttime
  apart : data.transitions.Pairwise fun a b => ∀ c ∈ allChanges data, ∀ c' ∈ allChanges data,
    (c.natAbs : Int) + c'.natAbs < b.gmttime - a.gmttime

/-- What the clock shows at the instant `t`. -/
def shown (data : Data) (t : Int) : Int := t + (typeAt data t).gmtOffset

/-- The clock shows the same at no other instant, or only in winter time what it shows in
summer time. -/
def Resolvable (data : Data) (t : Int) : Prop :=
  ∀ t', t' ≠ t → shown data t' = shown data t → (typeAt data t').isDst ≠ (typeAt data t).isDst

/-- The transition after the instant `t`. -/
def nextTransition (data : Data) (t : Int) : Option Transition :=
  (data.transitions.dropWhile fun tr => decide (tr.gmttime ≤ t)).head?

/-- If the clock will be put back behind what it shows, that ends summer time and is an hour. -/
def HourBack (data : Data) (t : Int) : Prop :=
  ∀ n, nextTransition data t = some n → n.localtime ≤ shown data t →
    (typeAt data t).isDst = true ∧
      (typeAt data t).gmtOffset - (typeOf data n).gmtOffset = 3600

/-! ## Neighbouring transitions -/

/-- What is used of `Spread`: a transition is far enough from the next one, compared with the
two changes. -/
def Apart (data : Data) : Int → List Transition → Prop
  | o, a :: b :: rest =>
      ((((typeOf data a).gmtOffset - o).natAbs : Int)
        + ((typeOf data b).gmtOffset - (typeOf data a).gmtOffset).natAbs < b.gmttime - a.gmttime) ∧
      Apart data (typeOf data a).gmtOffset (b :: rest)
  | _, _ => True

theorem Apart.gap {o : Int} {a : Transition} {l : List Transition} (h : Apart data o (a :: l)) :
    ∀ b, l.head? = some b →
      (((typeOf data a).gmtOffset - o).natAbs : Int)
        + ((typeOf data b).gmtOffset - (typeOf data a).gmtOffset).natAbs
          < b.gmttime - a.gmttime := by
  intro b hb
  cases l with
  | nil => cases hb
  | cons b' l =>
      cases hb
      exact h.1

theorem apart_of_changes {C : List Int} {o : Int} {l : List Transition}
    (hl : l.Pairwise fun a b => ∀ c ∈ C, ∀ c' ∈ C,
      (c.natAbs : Int) + c'.natAbs < b.gmttime - a.gmttime)
    (hC : ∀ c ∈ changes data o l, c ∈ C) : Apart data o l := by
  induction l generalizing o with
  | nil => trivial
  | cons a rest ih =>
      cases rest with
      | nil => trivial
      | cons b rest =>
          obtain ⟨ha, hrest⟩ := List.pairwise_cons.mp hl
          have hchange := hC _ List.mem_cons_self
          have hchange' := hC _ (List.mem_cons_of_mem _ List.mem_cons_self)
          refine ⟨ha b List.mem_cons_self _ hchange _ hchange', ?_⟩
          exact ih hrest fun c hc => hC c (List.mem_cons_of_mem _ hc)

theorem Spread.to_apart (h : Spread data) :
    Apart data (typeAfter data []).gmtOffset data.transitions :=
  apart_of_changes h.apart fun _ hc => hc

/-- The offset after the transitions of a list, if it is `o` before. -/
def offsetAfter (data : Data) (o : Int) (l : List Transition) : Int :=
  l.foldl (fun _ tr => (typeOf data tr).gmtOffset) o

theorem offsetAfter_eq (data : Data) (l : List Transition) :
    offsetAfter data (typeAfter data []).gmtOffset l = (typeAfter data l).gmtOffset := by
  rcases List.eq_nil_or_concat l with rfl | ⟨l, tr, rfl⟩
  · rfl
  · simp [offsetAfter, typeAfter]

theorem Apart.tail {o : Int} {a : Transition} {l : List Transition} (h : Apart data o (a :: l)) :
    Apart data (typeOf data a).gmtOffset l := by
  cases l with
  | nil => trivial
  | cons b l => exact h.2

theorem Apart.drop {o : Int} {A B : List Transition} (h : Apart data o (A ++ B)) :
    Apart data (offsetAfter data o A) B := by
  induction A generalizing o with
  | nil => exact h
  | cons a A ih => exact ih h.tail

theorem Apart.take {o : Int} {A B : List Transition} (h : Apart data o (A ++ B)) :
    Apart data o A := by
  induction A generalizing o with
  | nil => trivial
  | cons a A ih =>
      cases A with
      | nil => trivial
      | cons b A => exact ⟨h.1, ih h.2⟩

/-- Local time never goes back behind the local time of an earlier transition. -/
theorem Apart.localtime_lt {o : Int} {l : List Transition} (h : Apart data o l)
    (hl : ∀ tr ∈ l, tr.localtime = tr.gmttime + (typeOf data tr).gmtOffset) :
    l.Pairwise fun a b => a.localtime < b.localtime := by
  induction l generalizing o with
  | nil => exact List.Pairwise.nil
  | cons a rest ih =>
      have hrest := ih h.tail fun tr htr => hl tr (List.mem_cons_of_mem _ htr)
      refine List.pairwise_cons.mpr ⟨?_, hrest⟩
      cases rest with
      | nil => simp
      | cons b rest =>
          have ha := hl a List.mem_cons_self
          have hb := hl b (List.mem_cons_of_mem _ List.mem_cons_self)
          have hgap := h.1
          have hlt : a.localtime < b.localtime := by omega
          intro x hx
          rcases List.mem_cons.mp hx with rfl | hx
          · exact hlt
          · have := (List.pairwise_cons.mp hrest).1 x hx
            omega

/-- The local times of the transitions up to `t` are not after what the clock shows at `t`. -/
theorem localtime_le {o t : Int} {A : List Transition} (h : Apart data o A)
    (hl : ∀ tr ∈ A, tr.localtime = tr.gmttime + (typeOf data tr).gmtOffset)
    (ht : ∀ tr ∈ A, tr.gmttime ≤ t) : ∀ tr ∈ A, tr.localtime ≤ t + offsetAfter data o A := by
  have hsorted := h.localtime_lt hl
  rcases List.eq_nil_or_concat A with rfl | ⟨A, last, rfl⟩
  · simp
  · rw [List.concat_eq_append] at *
    have hlast : last.localtime ≤ t + offsetAfter data o (A ++ [last]) := by
      have := hl last (by simp)
      have := ht last (by simp)
      simp only [offsetAfter, List.foldl_append, List.foldl_cons, List.foldl_nil]
      omega
    intro tr htr
    rcases List.mem_append.mp htr with hA | hB
    · have := (List.pairwise_append.mp hsorted).2.2 tr hA last (by simp)
      omega
    · rw [List.mem_singleton.mp hB]
      exact hlast

/-! ## Which transition is found -/

theorem takeWhile_of_split {α : Type} {p : α → Bool} {A B : List α} (hA : ∀ a ∈ A, p a = true)
    (hB : ∀ b, B.head? = some b → p b = false) : (A ++ B).takeWhile p = A := by
  rw [List.takeWhile_append_of_pos hA]
  cases B with
  | nil => simp
  | cons b B => simp [hB b rfl]

/-- The transitions up to `t`, and those after it. -/
structure Split (data : Data) (t : Int) (A B : List Transition) : Prop where
  split : data.transitions = A ++ B
  before : ∀ a ∈ A, a.gmttime ≤ t
  after : ∀ b, B.head? = some b → t < b.gmttime

variable {t : Int} {A B : List Transition} {n : Transition}

theorem exists_split (data : Data) (t : Int) :
    ∃ A B, Split data t A B ∧ nextTransition data t = B.head? := by
  refine ⟨data.transitions.takeWhile fun tr => decide (tr.gmttime ≤ t),
    data.transitions.dropWhile fun tr => decide (tr.gmttime ≤ t), ⟨?_, ?_, ?_⟩, rfl⟩
  · rw [List.takeWhile_append_dropWhile]
  · intro a ha
    simpa using List.mem_takeWhile_imp ha
  · intro b hb
    have hnot := List.head?_dropWhile_not (fun tr : Transition => decide (tr.gmttime ≤ t))
      data.transitions
    rw [hb] at hnot
    simpa using hnot

theorem Split.typeAt_eq (h : Split data t A B) : typeAt data t = typeAfter data A := by
  have htake : (A ++ B).takeWhile (fun tr => decide (tr.gmttime ≤ t)) = A :=
    takeWhile_of_split (fun a ha => by simpa using h.before a ha)
      fun b hb => by simpa using h.after b hb
  rw [typeAt, h.split, htake]

theorem Split.shown_eq (h : Split data t A B) :
    shown data t = t + (typeAfter data A).gmtOffset := by
  rw [shown, h.typeAt_eq]

/-- The transitions up to `t` are not after what the clock shows. -/
theorem Split.localtimes_le (h : Split data t A B) (hz : Loaded data) (hs : Spread data) :
    ∀ a ∈ A, a.localtime ≤ t + (typeAfter data A).gmtOffset := by
  have hmem : ∀ a ∈ A, a ∈ data.transitions := by
    intro a ha
    rw [h.split]
    exact List.mem_append_left _ ha
  have hapart := hs.to_apart
  rw [h.split] at hapart
  rw [← offsetAfter_eq]
  exact localtime_le hapart.take (fun a ha => hz.localtime_eq a (hmem a ha)) h.before

theorem Split.apart_next (h : Split data t A B) (hs : Spread data) :
    Apart data (typeAfter data A).gmtOffset B := by
  have hapart := hs.to_apart
  rw [h.split] at hapart
  rw [← offsetAfter_eq]
  exact hapart.drop

/-- Where the next transition is not reached yet by local time, the search finds the one in
force. -/
theorem Split.found (h : Split data t A B) (hz : Loaded data) (hs : Spread data)
    (hn : ∀ n, B.head? = some n → shown data t < n.localtime) :
    data.transitions.takeWhile (fun tr => decide (tr.localtime ≤ shown data t)) = A := by
  have hle := h.localtimes_le hz hs
  rw [h.shown_eq] at hn ⊢
  rw [h.split]
  apply takeWhile_of_split
  · intro a ha
    simpa using hle a ha
  · intro b hb
    simpa using hn b hb

/-- Otherwise it finds the next one, and no later one. -/
theorem Split.found_next (h : Split data t A (n :: B)) (hz : Loaded data) (hs : Spread data)
    (hn : n.localtime ≤ shown data t) :
    data.transitions.takeWhile (fun tr => decide (tr.localtime ≤ shown data t)) = A ++ [n] := by
  have hle := h.localtimes_le hz hs
  have hsplit := h.split
  have hnext := h.apart_next hs
  rw [h.shown_eq] at hn ⊢
  rw [hsplit, List.append_cons]
  apply takeWhile_of_split
  · intro a ha
    rcases List.mem_append.mp ha with hA | hN
    · simpa using hle a hA
    · rw [List.mem_singleton.mp hN]
      simpa using hn
  · intro b hb
    have hgap := hnext.gap b hb
    have hlt := h.after n rfl
    have hbl := hz.localtime_eq b (by simp [hsplit, List.mem_of_head? hb])
    simp only [decide_eq_false_iff_not]
    omega

/-- Where the clock is put back behind what it shows, it will show it again, at an instant at
which the next transition is the one in force. -/
theorem Split.again (h : Split data t A (n :: B)) (hz : Loaded data) (hs : Spread data)
    (hn : n.localtime ≤ shown data t) :
    shown data t - (typeOf data n).gmtOffset ≠ t ∧
      typeAt data (shown data t - (typeOf data n).gmtOffset) = typeOf data n := by
  have hsplit := h.split
  have hnext := h.apart_next hs
  have hlt := h.after n rfl
  have hnl := hz.localtime_eq n (by simp [hsplit])
  rw [h.shown_eq] at hn ⊢
  refine ⟨by omega, ?_⟩
  have hagain : Split data (t + (typeAfter data A).gmtOffset - (typeOf data n).gmtOffset)
      (A ++ [n]) B := by
    refine ⟨by rw [hsplit, List.append_cons], ?_, ?_⟩
    · intro a ha
      rcases List.mem_append.mp ha with hA | hN
      · have := h.before a hA
        omega
      · rw [List.mem_singleton.mp hN]
        omega
    · intro b hb
      have hgap := hnext.gap b hb
      omega
  rw [hagain.typeAt_eq, typeAfter]
  simp

/-! ## The round trip -/

section roundTrip

variable {gmtime : Int → Tm} {timegm : Tm → Int}

theorem typeAt_mem (hz : Loaded data) (hs : Spread data) (t : Int) :
    findLocaltime data ⟨t, 0, 0⟩ ⟨true⟩ = .ok (typeAt data t) ∧
      typeAt data t ∈ data.localtimes := by
  have heq : findLocaltime data ⟨t, 0, 0⟩ ⟨true⟩ = .ok (typeAt data t) :=
    findLocaltime_eq hz.toIndexed hs.increasing
  obtain ⟨lt, hlt, hfind⟩ := findLocaltime_ok hz.toIndexed ⟨t, 0, 0⟩ ⟨true⟩
  rw [heq] at hfind
  cases hfind
  exact ⟨heq, hlt⟩

/-- The local time of an instant: the broken-down time of what the clock shows. -/
theorem toLocalTime_eq (gmtime : Int → Tm) (hz : Loaded data) (hs : Spread data) (t : Int) :
    ∃ zone, toLocalTime gmtime data t = .ok { gmtime (shown data t) with
      isdst := if (typeAt data t).isDst then 1 else 0
      gmtoff := (typeAt data t).gmtOffset
      zone := some zone } := by
  obtain ⟨hfind, hmem⟩ := typeAt_mem hz hs t
  rw [toLocalTime, hfind, ok_bind, cString, check_bind (hz.abbreviation_idx _ hmem)]
  exact ⟨_, rfl⟩

/-- The type that `fromLocalTime` finds for what the clock shows at `t`. -/
theorem findLocaltime_shown (hz : Loaded data) (hs : Spread data) (t : Int) :
    findLocaltime data ⟨0, shown data t, 0⟩ ⟨false⟩ = .ok (typeAfter data
      (data.transitions.takeWhile fun tr => decide (tr.localtime ≤ shown data t))) :=
  findLocaltime_eq hz.toIndexed (hs.to_apart.localtime_lt hz.localtime_eq)

/-- Going back from the local time of `t`, when the type `found` is found: at another instant
of summer time the correction applies if it is winter time there. -/
theorem fromLocalTime_eq (hinv : ∀ s, timegm (gmtime s) = s)
    (hign : ∀ tm isdst gmtoff zone,
      timegm { tm with isdst := isdst, gmtoff := gmtoff, zone := zone } = timegm tm)
    (hz : Loaded data) (hs : Spread data) {t : Int} {found : Localtime} {tm : Tm}
    (htm : toLocalTime gmtime data t = .ok tm)
    (hfound : findLocaltime data ⟨0, shown data t, 0⟩ ⟨false⟩ = .ok found)
    (hshown : shown data (shown data t - found.gmtOffset) = shown data t) :
    fromLocalTime gmtime timegm data tm = .ok
      (if (typeAt data t).isDst ∧ ¬ (typeAt data (shown data t - found.gmtOffset)).isDst then
        shown data t - 3600 - found.gmtOffset
      else shown data t - found.gmtOffset) := by
  obtain ⟨zone, htm'⟩ := toLocalTime_eq gmtime hz hs t
  obtain ⟨zone', htry⟩ := toLocalTime_eq gmtime hz hs (shown data t - found.gmtOffset)
  rw [htm] at htm'
  cases htm'
  rw [hshown] at htry
  simp only [fromLocalTime, hign, hinv, hfound, ok_bind, pure_eq_ok]
  cases (typeAt data t).isDst with
  | false => simp
  | true =>
      simp only [htry, ok_bind]
      cases (typeAt data (shown data t - found.gmtOffset)).isDst with
      | false => simp
      | true => simp

theorem local_round_trip (hinv : ∀ s, timegm (gmtime s) = s)
    (hign : ∀ tm isdst gmtoff zone,
      timegm { tm with isdst := isdst, gmtoff := gmtoff, zone := zone } = timegm tm)
    (hz : Loaded data) (hs : Spread data) (t : Int) (hr : Resolvable data t) :
    (do let tm ← toLocalTime gmtime data t; fromLocalTime gmtime timegm data tm) = .ok t ↔
      HourBack data t := by
  obtain ⟨A, B, hsplit, hnext⟩ := exists_split data t
  obtain ⟨zone, htm⟩ := toLocalTime_eq gmtime hz hs t
  have hfind := findLocaltime_shown hz hs t
  rw [HourBack, hnext]
  by_cases hback : ∃ n, B.head? = some n ∧ n.localtime ≤ shown data t
  · obtain ⟨n, hn, hle⟩ := hback
    obtain ⟨B, rfl⟩ : ∃ B', B = n :: B' := by
      cases B with
      | nil => cases hn
      | cons b B => cases hn; exact ⟨B, rfl⟩
    rw [hsplit.found_next hz hs hle] at hfind
    obtain ⟨hne, hagain⟩ := hsplit.again hz hs hle
    have hafter : typeAfter data (A ++ [n]) = typeOf data n := by simp [typeAfter]
    rw [hafter] at hfind
    have hshown : shown data (shown data t - (typeOf data n).gmtOffset) = shown data t := by
      rw [shown, hagain]
      omega
    have hkind := hr _ hne hshown
    rw [htm, ok_bind, fromLocalTime_eq hinv hign hz hs htm hfind hshown, hagain]
    rw [hagain] at hkind
    have hiff : (∀ m, (n :: B).head? = some m → m.localtime ≤ shown data t →
        (typeAt data t).isDst = true ∧
          (typeAt data t).gmtOffset - (typeOf data m).gmtOffset = 3600) ↔
        (typeAt data t).isDst = true ∧
          (typeAt data t).gmtOffset - (typeOf data n).gmtOffset = 3600 := by
      constructor
      · intro hall
        exact hall n rfl hle
      · intro h m hm _
        cases hm
        exact h
    rw [hiff, Except.ok.injEq]
    have hdef : shown data t = t + (typeAt data t).gmtOffset := rfl
    cases hdst : (typeAt data t).isDst with
    | false => simpa using hne
    | true =>
        have hwinter : (typeOf data n).isDst = false := by
          rw [hdst] at hkind
          simpa using hkind
        simp only [hwinter, true_and, Bool.false_eq_true, not_false_eq_true, and_self, if_true]
        omega
  · have hnone : ∀ n, B.head? = some n → shown data t < n.localtime := by
      intro n hn
      by_contra hlt
      exact hback ⟨n, hn, by omega⟩
    rw [hsplit.found hz hs hnone, ← hsplit.typeAt_eq] at hfind
    have hself : shown data t - (typeAt data t).gmtOffset = t := by
      rw [shown]
      omega
    have hshown : shown data (shown data t - (typeAt data t).gmtOffset) = shown data t := by
      rw [hself]
    rw [htm, ok_bind, fromLocalTime_eq hinv hign hz hs htm hfind hshown, hself]
    constructor
    · intro _ n hn hle
      have := hnone n hn
      omega
    · intro _
      rw [if_neg (by tauto)]

end roundTrip

/-! ## Half an hour of summer time -/

/-- `gmtime_r` -/
def calendarTime (t : Int) : Tm := reading (ofJulianDay (dayOf t)) (t % 86400) true

/-- `timegm`, on what `gmtime_r` gives. -/
def calendarInstant (tm : Tm) : Int :=
  (julianDay ⟨tm.year + 1900, tm.mon + 1, tm.mday⟩ - 2440588) * 86400
    + (tm.hour * 3600 + tm.min * 60 + tm.sec)

theorem calendarInstant_calendarTime (t : Int) : calendarInstant (calendarTime t) = t := by
  have hj := (ofJulianDay_valid (dayOf t)).2
  rw [dayOf] at hj
  simp only [calendarInstant, calendarTime, reading, Int.sub_add_cancel, dayOf]
  rw [hj]
  omega

/-- A zone ten hours and a half east of Greenwich, with half an hour of summer time, which ends
at the instant 0. -/
def halfHourZone : Data where
  transitions := [⟨-20000000, -20000000 + 39600, 1⟩, ⟨0, 37800, 0⟩]
  localtimes := [⟨37800, false, 0⟩, ⟨39600, true, 6⟩]
  abbreviation := [43, 49, 48, 51, 48, 0, 43, 49, 49, 0]

theorem halfHourZone_loaded : Loaded halfHourZone where
  localtimes_ne := by decide
  transition_idx := by decide
  abbreviation_idx := by decide
  localtime_eq := by decide

theorem halfHourZone_spread : Spread halfHourZone where
  increasing := by decide
  apart := by decide

/-- Ten minutes before summer time ends, the clock shows what it will show again. -/
theorem halfHourZone_resolvable : Resolvable halfHourZone (-600) := by
  have hnow : typeAt halfHourZone (-600) = ⟨39600, true, 6⟩ := by rfl
  intro t' hne hshown
  rw [shown, shown, hnow] at hshown
  rw [hnow]
  by_cases hsummer : -20000000 ≤ t'
  · by_cases hwinter : 0 ≤ t'
    · have htype : typeAt halfHourZone t' = ⟨37800, false, 0⟩ := by
        simp [typeAt, halfHourZone, hsummer, hwinter, typeAfter, typeOf]
      rw [htype]
      decide
    · have htype : typeAt halfHourZone t' = ⟨39600, true, 6⟩ := by
        simp [typeAt, halfHourZone, hsummer, hwinter, typeAfter, typeOf]
      rw [htype] at hshown
      simp only at hshown
      omega
  · have htype : typeAt halfHourZone t' = ⟨37800, false, 0⟩ := by
      simp [typeAt, halfHourZone, hsummer, typeAfter]
    rw [htype] at hshown
    simp only at hshown
    omega

theorem local_round_trip_halfHour :
    (do let tm ← toLocalTime calendarTime halfHourZone (-600)
        fromLocalTime calendarTime calendarInstant halfHourZone tm) = .ok (-600) ↔
      HourBack halfHourZone (-600) :=
  local_round_trip calendarInstant_calendarTime (fun _ _ _ _ => rfl) halfHourZone_loaded
    halfHourZone_spread (-600) halfHourZone_resolvable

theorem halfHourZone_lost :
    (∀ s, calendarInstant (calendarTime s) = s) ∧
      (∀ (tm : Tm) (isdst gmtoff : Int) (zone : Option (List UInt8)),
        calendarInstant { tm with isdst := isdst, gmtoff := gmtoff, zone := zone }
          = calendarInstant tm) ∧
      Loaded halfHourZone ∧ Spread halfHourZone ∧ Resolvable halfHourZone (-600) ∧
      (do let tm ← toLocalTime calendarTime halfHourZone (-600)
          fromLocalTime calendarTime calendarInstant halfHourZone tm) = .ok (-2400) :=
  ⟨calendarInstant_calendarTime, fun _ _ _ _ => rfl, halfHourZone_loaded, halfHourZone_spread,
    halfHourZone_resolvable, by rfl⟩

end Zing.Base
