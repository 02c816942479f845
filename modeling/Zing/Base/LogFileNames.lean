import Zing.Base.LogFile
import Zing.Base.SortedText

set_option autoImplicit false

/-! # The names of the log files

The stamp in the name of a log file sorts as the time of the roll does, as long as the year has
four digits, and each file is that of a later time. Whoever reads the files of an object in the
order of their names reads the lines in the order in which they were logged.
-/

namespace Zing.Base

open Lib Detail FileUtil

namespace LogFile

variable {c : Config} {l : LogFile} {r r' : Reading} {t : Int}

/-- The times from 1970 to 9999. -/
def InStampYears (t : Int) : Prop := 0 < t ∧ t < 253402300800

theorem InStampYears.isTime (h : InStampYears t) : IsTime t :=
  ⟨h.1, h.2.trans (by norm_num)⟩

theorem InStampYears.inYears (h : InStampYears t) : InYears t :=
  ⟨by have := h.1; omega, h.2⟩

/-- A year of four digits needs no filling up. -/
theorem decimal_year (h : InStampYears t) :
    decimal (ofJulianDay (dayOf t)).year = padSpace 4 (ofJulianDay (dayOf t)).year := by
  obtain ⟨hvalid, hday⟩ := ofJulianDay_valid (dayOf t)
  have hlow : ¬ (ofJulianDay (dayOf t)).Before ⟨1970, 1, 1⟩ := by
    rw [julianDay_lt_iff hvalid (Civil.valid_newYear 1970), hday, dayOf]
    have := h.1
    have hnewYear : julianDay ⟨1970, 1, 1⟩ = 2440588 := rfl
    omega
  have hyear : 1000 ≤ (ofJulianDay (dayOf t)).year := by
    by_contra hlt
    exact hlow (Or.inl (by show (ofJulianDay (dayOf t)).year < 1970; omega))
  have hlen : 4 ≤ (decimal (ofJulianDay (dayOf t)).year).length := by
    by_contra hlt
    rw [decimal_of_nonneg (by omega)] at hlt
    have hsmall := (numeral_length_le (b := 10) (k := 3)
      (v := (ofJulianDay (dayOf t)).year.natAbs) (by decide) (by decide)).mp (by omega)
    norm_num at hsmall
    omega
  rw [padSpace, Nat.sub_eq_zero_of_le hlen]
  rfl

theorem sorts_timebuf : Sorts (fun r : Reading => InStampYears r.now)
    (fun r r' => r.now < r'.now) (fun r r' => r.now = r'.now) 17 timebuf := by
  have hinstant := (sorts_instant (text "-") (by decide)
    (sorts_civilText [] (by decide)) (sorts_clockText [] (by decide))).comap
      Reading.now fun r (hr : InStampYears r.now) => hr.inYears
  have htext := ((Sorts.const (text ".") (by decide)).append hinstant).append
    (Sorts.const (text ".") (by decide))
  refine ((htext.congr ?_ ?_).congr_text ?_)
  · intro r r' _ _
    simp
  · intro r r' _ _
    simp
  · intro r hr
    rw [timebuf_eq hr.isTime]
    have hyear := decimal_year hr
    simp [stampText, calendarTime, reading, civilText, clockText, hyear]

/-- The name of a later file sorts behind, whatever the host and the process are. -/
theorem filename_lt (basename : List UInt8) (hr : InStampYears r.now) (hr' : InStampYears r'.now)
    (hlt : r.now < r'.now) : (getLogFileName basename r).1 < (getLogFileName basename r').1 := by
  have hstamp := sorts_timebuf.lt_append hr hr' hlt (r.hostname ++ (pidbuf r ++ text ".log"))
    (r'.hostname ++ (pidbuf r' ++ text ".log"))
  have hname : ∀ r : Reading, (getLogFileName basename r).1 =
      basename ++ (timebuf r ++ (r.hostname ++ (pidbuf r ++ text ".log"))) := by
    intro r
    simp only [getLogFileName, List.append_assoc]
  rw [hname, hname, append_lt_append_iff rfl]
  exact Or.inr ⟨rfl, hstamp⟩

variable {strerror_tl : Int → List UInt8} {s : World × List Appended}

theorem reachable_kept (h : ((runs strerror_tl c).logged observe).Reachable Succeeds s) :
    Kept c s :=
  h.invariant (fun _ h₀ => (kept_init h₀).1) fun _ _ _ hs ha hn => hs.next ha hn

/-- The files are in the order of their names. -/
theorem Inv.filenames (h : Inv c l) (hyears : ∀ f ∈ l.files, InStampYears f.reading.now) :
    l.files.Pairwise fun f g => f.filename < g.filename := by
  apply h.sorted.imp_of_mem
  intro f g hf hg hlt
  rw [h.named f hf, h.named g hg]
  exact filename_lt _ (hyears f hf) (hyears g hg) hlt

/-- The files in the order of their names hold the lines in order. -/
theorem flatten_of_sorted {lines : List (List UInt8)} (h : Inv c l) (horder : InOrder l.files lines)
    (hyears : ∀ f ∈ l.files, InStampYears f.reading.now) {fs : List File}
    (hperm : fs.Perm l.files) (hsorted : fs.Pairwise fun f g => f.filename < g.filename) :
    (fs.map fun f => f.out.fp).flatten = lines.flatten := by
  -- there is one order of the files in which the names grow
  have heq : fs = l.files := by
    apply List.Perm.eq_of_pairwise _ hsorted (h.filenames hyears) hperm
    intro f g _ _ hlt hgt
    exact absurd hgt (List.lt_asymm hlt)
  obtain ⟨groups, hlines, hfiles⟩ := horder
  rw [heq, hfiles, ← hlines, List.flatten_flatten]

/-- In every run whose files are opened before the year 10000, whatever the clock does, however
the object rolls, and whatever the name of the host is at each roll: the names grow from file to
file, and the files in the order of their names hold the lines of all calls, in order. -/
theorem logFile_sorted (strerror_tl : Int → List UInt8) (c : Config)
    (s : World × List Appended)
    (h : ((runs strerror_tl c).logged observe).Reachable Succeeds s)
    (hyears : ∀ f ∈ s.1.log.files, InStampYears f.reading.now) :
    (s.1.log.files.Pairwise fun f g => f.filename < g.filename) ∧
    ∀ fs : List File, fs.Perm s.1.log.files →
      (fs.Pairwise fun f g => f.filename < g.filename) →
        (fs.map fun f => f.out.fp).flatten = (s.2.map Appended.bytes).flatten := by
  have hkept := reachable_kept h
  refine ⟨hkept.inv.filenames hyears, ?_⟩
  intro fs hperm hsorted
  exact flatten_of_sorted hkept.inv hkept.order hyears hperm hsorted

def sampleRolls : List Action := sampleCalls ++ [.rollFile (sampleReading 31536000)]

/-- A third file, of the year after. -/
theorem logFile_sorted_sample : ∃ s : World × List Appended,
    ((runs (fun _ => []) sampleConfig).logged observe).Reachable Succeeds s ∧
    s.1.log.files.map (fun f => f.reading.now) = [5, 6, 31536000] ∧
    (s.1.log.files.Pairwise fun f g => f.filename < g.filename) ∧
      (s.1.log.files.map fun f => f.out.fp).flatten = (s.2.map Appended.bytes).flatten := by
  have hend : ∃ s, ((runs (fun _ => []) sampleConfig).logged observe).exec
      (⟨((⟨sampleConfig, 0, 0, 0, 0, none, []⟩ : LogFile).rollFile (sampleReading 5)).1, 5⟩, [])
      sampleRolls = some (.ok s) ∧
        s.1.log.files.map (fun f => f.reading.now) = [5, 6, 31536000] := ⟨_, rfl, rfl⟩
  obtain ⟨s, hexec, hnow⟩ := hend
  have hsucceeds : ∀ a ∈ sampleRolls, ∀ s, Succeeds s a := by
    intro a ha s
    simp only [sampleRolls, sampleCalls, List.mem_append, List.mem_cons, List.not_mem_nil,
      or_false] at ha
    rcases ha with (rfl | rfl | rfl) | rfl
    · exact ⟨by simp [AppendFile.NoError], by decide, by decide, by decide⟩
    · exact ⟨by simp [AppendFile.NoError], by decide, by decide, by decide⟩
    · exact ⟨by simp [AppendFile.NoError], by decide, by decide, by decide⟩
    · exact (show IsTime 31536000 by decide)
  have hinit : ((runs (fun _ => []) sampleConfig).logged observe).init
      (⟨((⟨sampleConfig, 0, 0, 0, 0, none, []⟩ : LogFile).rollFile (sampleReading 5)).1, 5⟩, []) :=
    ⟨⟨sampleReading 5, by decide, rfl, rfl⟩, rfl⟩
  have hyears : ∀ f ∈ s.1.log.files, InStampYears f.reading.now := by
    intro f hf
    have hmem : f.reading.now ∈ [5, 6, 31536000] := by
      rw [← hnow]
      exact List.mem_map_of_mem hf
    simp only [List.mem_cons, List.not_mem_nil, or_false] at hmem
    rcases hmem with h | h | h
    · rw [h]
      exact ⟨by decide, by decide⟩
    · rw [h]
      exact ⟨by decide, by decide⟩
    · rw [h]
      exact ⟨by decide, by decide⟩
  have hreach := (System.Reachable.of_init hinit).run
    ((System.run_of_exec hexec).of_actions hsucceeds)
  obtain ⟨hnames, hread⟩ := logFile_sorted (fun _ => []) sampleConfig s hreach hyears
  exact ⟨s, hreach, hnow, hnames, hread _ (List.Perm.refl _) hnames⟩

end LogFile

end Zing.Base
