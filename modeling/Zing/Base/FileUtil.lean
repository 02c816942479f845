import Mathlib.Tactic.IntervalCases
import Zing.Base.Convert
import Zing.Lib.CInt

set_option autoImplicit false

/-! # `AppendFile`

A file that is written through a stream of `stdio`, and that counts in `writtenBytes_` what was
written. `append` goes on with the rest of the line when the stream took only a part of it, and
gives up when the stream has an error.

What `fwrite_unlocked` does at each call is an input: it takes any prefix of what it is given,
and sets the error flag of the stream or not. A call of `append` for which the results do not
suffice is still in its loop (`none`).

The loop leaves on an error before it has added what the last call took. `append_counts` says
that this is the only case in which `writtenBytes_` is not what the stream took.
-/

namespace Zing.Base.FileUtil

open Zing.Lib

/-- What a call of `fwrite_unlocked` does: the bytes that the stream takes, of those it is given,
and the value of `ferror` afterwards. -/
structure Fwrite where
  count : Nat
  ferror : Int

/-- `class AppendFile`: `fp_` is what the stream took since the file was opened. -/
structure AppendFile where
  fp : List UInt8
  writtenBytes : Int

namespace AppendFile

/-! ## The functions -/

/-- `AppendFile(filename)`; opening a file for appending succeeds. -/
def new : AppendFile := ⟨[], 0⟩

/-- `write(logline, len)` -/
def write (fp : List UInt8) (r : Fwrite) (logline : List UInt8) (len : Nat) :
    Except OutOfBounds (List UInt8 × Nat) := do
  let bytes ← Memory.read logline len
  return (fp ++ bytes.take r.count, min r.count len)

/-- How the loop ends: what the stream took, `written`, and the error that ended it. -/
structure Written where
  fp : List UInt8
  written : Nat
  err : Option Int

/-- The loop of `append`, with the results of the calls to come. -/
def appendLoop (logline : List UInt8) (len : Nat) :
    List Fwrite → List UInt8 → Nat → Except OutOfBounds (Option Written)
  | [], fp, written =>
      if written ≠ len then return none else return some ⟨fp, written, none⟩
  | r :: results, fp, written =>
      if written ≠ len then do
        let remain := len - written
        let (fp, n) ← write fp r (logline.drop written) remain
        if n ≠ remain ∧ r.ferror ≠ 0 then
          -- what the stream took of the line stays out of `written`
          return some ⟨fp, written, some r.ferror⟩
        else
          appendLoop logline len results fp (written + n)
      else return some ⟨fp, written, none⟩

/-- What `append` prints to `stderr`. -/
def failure (strerror_tl : Int → List UInt8) (err : Int) : List UInt8 :=
  text "AppendFile::append() failed " ++ strerror_tl err ++ text "\n"

/-- `append(logline, len)`: the file, and what was printed to `stderr`. -/
def append (strerror_tl : Int → List UInt8) (f : AppendFile) (results : List Fwrite)
    (logline : List UInt8) (len : Nat) : Except OutOfBounds (Option (AppendFile × List UInt8)) := do
  match ← appendLoop logline len results f.fp 0 with
  | none => return none
  | some r =>
      return some (⟨r.fp, narrow 64 (f.writtenBytes + r.written)⟩,
        (r.err.map (failure strerror_tl)).getD [])

/-! ## What is to be counted -/

/-- No error was flagged. -/
def NoError (results : List Fwrite) : Prop := ∀ r ∈ results, r.ferror = 0

/-- The stream took the first `k` bytes of the line, the whole line if no error was printed or
flagged. -/
structure Took (f : AppendFile) (results : List Fwrite) (logline : List UInt8) (len : Nat)
    (f' : AppendFile) (err : List UInt8) (k : Nat) : Prop where
  le : k ≤ len
  fp_eq : f'.fp = f.fp ++ logline.take k
  whole : err = [] ∨ NoError results → k = len

/-- `writtenBytes_` has grown by what the stream took. -/
def Counts (f : AppendFile) (results : List Fwrite) (logline : List UInt8) (len : Nat)
    (f' : AppendFile) (err : List UInt8) : Prop :=
  ∃ k, Took f results logline len f' err k ∧ f'.writtenBytes = narrow 64 (f.writtenBytes + k)

/-- The bytes that calls take together. -/
def total (results : List Fwrite) : Nat := (results.map Fwrite.count).sum

/-- The first call that fails takes nothing: the one that ends short of the line with an error,
where none before it had an error. -/
def FailsEmpty (len : Nat) (results : List Fwrite) : Prop :=
  ∀ before r after, results = before ++ r :: after → NoError before →
    total before + r.count < len → r.ferror ≠ 0 → r.count = 0

/-! ## The condition along the loop -/

variable {r : Fwrite} {results : List Fwrite} {len : Nat}

theorem failsEmpty_nil : FailsEmpty len [] := by
  intro before r after h
  cases before <;> cases h

/-- A call that takes all there is ends the line. -/
theorem failsEmpty_full (h : len ≤ r.count) : FailsEmpty len (r :: results) := by
  intro before r' after hsplit hno hlt herr
  cases before with
  | nil =>
      cases hsplit
      simp only [total, List.map_nil, List.sum_nil] at hlt
      omega
  | cons r₀ before =>
      cases hsplit
      simp only [total, List.map_cons, List.sum_cons] at hlt
      omega

theorem failsEmpty_error (h : r.count < len) (herr : r.ferror ≠ 0) :
    FailsEmpty len (r :: results) ↔ r.count = 0 := by
  constructor
  · intro hempty
    refine hempty [] r results rfl (fun _ hmem => absurd hmem List.not_mem_nil) ?_ herr
    simpa [total] using h
  · intro hzero before r' after hsplit hno hlt herr'
    cases before with
    | nil =>
        cases hsplit
        exact hzero
    | cons r₀ before =>
        cases hsplit
        exact absurd (hno r List.mem_cons_self) herr

/-- A call that ends short without an error leaves the rest of the line to those behind it. -/
theorem failsEmpty_short (h : r.count < len) (herr : r.ferror = 0) :
    FailsEmpty len (r :: results) ↔ FailsEmpty (len - r.count) results := by
  constructor
  · intro hempty before r' after hsplit hno hlt herr'
    refine hempty (r :: before) r' after (by rw [hsplit]; rfl) ?_ ?_ herr'
    · intro r₀ hmem
      rcases List.mem_cons.mp hmem with rfl | hmem
      · exact herr
      · exact hno r₀ hmem
    · simp only [total, List.map_cons, List.sum_cons] at hlt ⊢
      omega
  · intro hempty before r' after hsplit hno hlt herr'
    cases before with
    | nil =>
        cases hsplit
        exact absurd herr herr'
    | cons r₀ before =>
        cases hsplit
        refine hempty before r' after rfl (fun r₁ hmem => hno r₁ (List.mem_cons_of_mem _ hmem))
          ?_ herr'
        simp only [total, List.map_cons, List.sum_cons] at hlt ⊢
        omega

/-! ## The loop -/

variable {logline fp : List UInt8} {written : Nat} {w : Written}

/-- `w` is how the loop ends, if it starts with `written` bytes of the line behind it: the stream
took the bytes up to `k`. -/
structure Ended (logline : List UInt8) (len : Nat) (results : List Fwrite) (fp : List UInt8)
    (written : Nat) (w : Written) (k : Nat) : Prop where
  le : written ≤ k
  le_len : k ≤ len
  fp_eq : w.fp = fp ++ segment logline written k
  whole : w.err = none → k = len
  no_error : NoError results → w.err = none
  written_le : w.written ≤ k
  counted : w.written = k ↔ FailsEmpty (len - written) results

/-- At the end of the line the loop ends, whatever is to come. -/
theorem appendLoop_len :
    appendLoop logline len results fp len = .ok (some ⟨fp, len, none⟩) := by
  cases results with
  | nil => exact if_neg (not_not.mpr rfl)
  | cons r results => exact if_neg (not_not.mpr rfl)

/-- The stream took the rest of the line. -/
theorem ended_whole (hle : written ≤ len) (hresults : FailsEmpty (len - written) results) :
    Ended logline len results fp written ⟨fp ++ segment logline written len, len, none⟩ len := by
  refine ⟨hle, Nat.le_refl _, rfl, fun _ => rfl, fun _ => rfl, Nat.le_refl _, ?_⟩
  exact iff_of_true rfl hresults

theorem ended_error (hlt : r.count < len - written) (herr : r.ferror ≠ 0) :
    Ended logline len (r :: results) fp written
      ⟨fp ++ segment logline written (written + r.count), written, some r.ferror⟩
      (written + r.count) := by
  refine ⟨Nat.le_add_right _ _, by omega, rfl, nofun, ?_, Nat.le_add_right _ _, ?_⟩
  · intro hno
    exact absurd (hno r List.mem_cons_self) herr
  · rw [failsEmpty_error hlt herr]
    exact Nat.left_eq_add

/-- After a call that ends short without an error the loop goes on. -/
theorem Ended.step {k : Nat} (hlt : r.count < len - written) (herr : r.ferror = 0)
    (h : Ended logline len results (fp ++ segment logline written (written + r.count))
      (written + r.count) w k) : Ended logline len (r :: results) fp written w k := by
  have hle := h.le
  refine ⟨by omega, h.le_len, ?_, h.whole, ?_, h.written_le, ?_⟩
  · rw [h.fp_eq, List.append_assoc, segment_append _ (Nat.le_add_right _ _) hle]
  · intro hno
    exact h.no_error fun r' hmem => hno r' (List.mem_cons_of_mem _ hmem)
  · rw [h.counted, failsEmpty_short hlt herr, Nat.sub_sub]

theorem write_ok (hlen : len ≤ logline.length) (hle : written ≤ len) :
    write fp r (logline.drop written) (len - written) =
      .ok (fp ++ segment logline written (written + min r.count (len - written)),
        min r.count (len - written)) := by
  have hread : len - written ≤ (logline.drop written).length := by
    rw [List.length_drop]
    omega
  have htake : ((logline.drop written).take (len - written)).take r.count
      = segment logline written (written + min r.count (len - written)) := by
    rw [List.take_take, Lib.segment, List.drop_take, Nat.add_sub_cancel_left]
  rw [write, Memory.read_ok hread, ok_bind, htake]
  rfl

theorem appendLoop_spec (hlen : len ≤ logline.length) (hle : written ≤ len) :
    ∃ o, appendLoop logline len results fp written = .ok o ∧
      ∀ w, o = some w → ∃ k, Ended logline len results fp written w k := by
  induction results generalizing fp written with
  | nil =>
      by_cases h : written = len
      · refine ⟨_, if_neg (not_not.mpr h), ?_⟩
        intro w hw
        cases hw
        subst h
        have hend : Ended logline written [] fp written _ written :=
          ended_whole (Nat.le_refl written) failsEmpty_nil
        rw [segment_self, List.append_nil] at hend
        exact ⟨written, hend⟩
      · refine ⟨none, if_pos h, ?_⟩
        intro w hw
        cases hw
  | cons r results ih =>
      by_cases h : written = len
      · subst h
        refine ⟨_, appendLoop_len, ?_⟩
        intro w hw
        cases hw
        have hend : Ended logline written (r :: results) fp written _ written :=
          ended_whole (Nat.le_refl written) (failsEmpty_full (by omega))
        rw [segment_self, List.append_nil] at hend
        exact ⟨written, hend⟩
      rw [appendLoop, if_pos h]
      simp only [write_ok hlen hle, ok_bind]
      by_cases hfull : len - written ≤ r.count
      · -- the last call, whatever its flag
        have hwritten : written + min r.count (len - written) = len := by omega
        rw [if_neg (by omega), hwritten, appendLoop_len]
        refine ⟨_, rfl, ?_⟩
        intro w hw
        cases hw
        exact ⟨len, ended_whole hle (failsEmpty_full hfull)⟩
      · have hmin : min r.count (len - written) = r.count := by omega
        rw [hmin]
        by_cases herr : r.ferror = 0
        · rw [if_neg fun hand => hand.2 herr]
          obtain ⟨o, ho, hend⟩ := @ih (fp ++ segment logline written (written + r.count))
            (written + r.count) (by omega)
          refine ⟨o, ho, ?_⟩
          intro w hw
          obtain ⟨k, hk⟩ := hend w hw
          exact ⟨k, hk.step (by omega) herr⟩
        · rw [if_pos ⟨by omega, herr⟩]
          refine ⟨_, rfl, ?_⟩
          intro w hw
          cases hw
          exact ⟨_, ended_error (by omega) herr⟩

/-! ## The call -/

variable {strerror_tl : Int → List UInt8} {f f' : AppendFile} {err : List UInt8}

/-- A line that is as long as it says is not read beyond its end. -/
theorem append_ok (strerror_tl : Int → List UInt8) (f : AppendFile) (results : List Fwrite)
    (hlen : len ≤ logline.length) : ∃ o, f.append strerror_tl results logline len = .ok o := by
  obtain ⟨o, ho, -⟩ : ∃ o, appendLoop logline len results f.fp 0 = .ok o ∧ _ :=
    appendLoop_spec hlen (Nat.zero_le len)
  rw [append, ho, ok_bind]
  cases o with
  | none => exact ⟨_, rfl⟩
  | some w => exact ⟨_, rfl⟩

theorem append_eq (hlen : len ≤ logline.length)
    (h : f.append strerror_tl results logline len = .ok (some (f', err))) :
    ∃ w k, Ended logline len results f.fp 0 w k ∧ f'.fp = w.fp ∧
      f'.writtenBytes = narrow 64 (f.writtenBytes + w.written) ∧ (err = [] ↔ w.err = none) := by
  obtain ⟨o, ho, hend⟩ : ∃ o, appendLoop logline len results f.fp 0 = .ok o ∧ _ :=
    appendLoop_spec hlen (Nat.zero_le len)
  rw [append, ho, ok_bind] at h
  cases o with
  | none => cases h
  | some w =>
      obtain ⟨k, hk⟩ := hend w rfl
      cases h
      refine ⟨w, k, hk, rfl, rfl, ?_⟩
      cases w.err with
      | none => exact iff_of_true rfl rfl
      | some e => exact iff_of_false nofun nofun

/-- Two counts of one `size_t` that lead to one `off_t` are the same. -/
theorem narrow_add_inj {z : Int} {a b : Nat} (ha : a < 2 ^ 64) (hb : b < 2 ^ 64)
    (h : narrow 64 (z + a) = narrow 64 (z + b)) : a = b := by
  have hmod := congrArg (· % ((2 ^ 64 : Nat) : Int)) h
  simp only [narrow, Int.bmod_emod] at hmod
  omega

/-- Without an error, the whole line is taken and counted. -/
theorem append_whole (hlen : len ≤ logline.length) (hno : NoError results)
    (h : f.append strerror_tl results logline len = .ok (some (f', err))) :
    f'.fp = f.fp ++ logline.take len ∧ f'.writtenBytes = narrow 64 (f.writtenBytes + len) ∧
      err = [] := by
  obtain ⟨w, k, hend, hfp, hbytes, herr⟩ := append_eq hlen h
  have hnone := hend.no_error hno
  have hk := hend.whole hnone
  have hempty : FailsEmpty (len - 0) results := by
    intro before r after hsplit _ _ hr
    exact absurd (hno r (by rw [hsplit]; simp)) hr
  rw [hbytes, hend.counted.mpr hempty, hfp, hend.fp_eq, hk]
  exact ⟨rfl, rfl, herr.mpr hnone⟩

/-- The stream takes a prefix of the line, and `append` counts what it took if and only if the
first call that fails takes nothing. -/
theorem append_counts (strerror_tl : Int → List UInt8) (f : AppendFile) (results : List Fwrite)
    (logline : List UInt8) (len : Nat) (hlen : len ≤ logline.length) (hsize : len < 2 ^ 64)
    (f' : AppendFile) (err : List UInt8)
    (h : f.append strerror_tl results logline len = .ok (some (f', err))) :
    (∃ k, Took f results logline len f' err k) ∧
      (Counts f results logline len f' err ↔ FailsEmpty len results) := by
  obtain ⟨w, k, hend, hfp, hbytes, herr⟩ := append_eq hlen h
  have hle := hend.le_len
  have htook : Took f results logline len f' err k := by
    refine ⟨hle, ?_, ?_⟩
    · rw [hfp, hend.fp_eq]
      rfl
    · intro hnone
      rcases hnone with hnone | hno
      · exact hend.whole (herr.mp hnone)
      · exact hend.whole (hend.no_error hno)
  have hcounted : w.written = k ↔ FailsEmpty len results := hend.counted
  refine ⟨⟨k, htook⟩, ?_⟩
  rw [← hcounted]
  constructor
  · intro ⟨k', htook', hbytes'⟩
    -- the stream tells how much it took
    have hsame : k' = k := by
      have htake := List.append_cancel_left (htook.fp_eq.symm.trans htook'.fp_eq)
      have hlength := congrArg List.length htake
      have hle' := htook'.le
      rw [List.length_take_of_le (by omega), List.length_take_of_le (by omega)] at hlength
      exact hlength.symm
    have hwritten := hend.written_le
    rw [hsame, hbytes] at hbytes'
    exact narrow_add_inj (by omega) (by omega) hbytes'
  · intro heq
    exact ⟨k, htook, by rw [hbytes, heq]⟩

/-- Two calls, the first of which takes a part of the line. -/
theorem append_counts_retry :
    (∃ k, Took new [⟨1, 0⟩, ⟨1, 0⟩] (text "ab") 2 ⟨text "ab", 2⟩ [] k) ∧
      (Counts new [⟨1, 0⟩, ⟨1, 0⟩] (text "ab") 2 ⟨text "ab", 2⟩ [] ↔
        FailsEmpty 2 [⟨1, 0⟩, ⟨1, 0⟩]) :=
  append_counts (fun _ => []) new [⟨1, 0⟩, ⟨1, 0⟩] (text "ab") 2 (by decide) (by decide)
    ⟨text "ab", 2⟩ [] rfl

/-- The stream takes one byte and fails: the byte is not counted. -/
theorem append_miscounts :
    ¬ ∀ (strerror_tl : Int → List UInt8) (f : AppendFile) (results : List Fwrite)
      (logline : List UInt8) (len : Nat), len ≤ logline.length → len < 2 ^ 64 →
      ∀ (f' : AppendFile) (err : List UInt8),
        f.append strerror_tl results logline len = .ok (some (f', err)) →
          Counts f results logline len f' err := by
  intro h
  obtain ⟨k, htook, hbytes⟩ := h (fun _ => []) new [⟨1, 28⟩] (text "ab") 2
    (by decide) (by decide) ⟨text "a", 0⟩ (failure (fun _ => []) 28) rfl
  have hk := htook.le
  have hfp := htook.fp_eq
  interval_cases k
  · exact absurd hfp (by decide)
  · exact absurd hbytes (by decide)
  · exact absurd hfp (by decide)

end AppendFile

end Zing.Base.FileUtil
