import Zing.Base.FileUtil
import Zing.Base.LogTime

set_option autoImplicit false

/-! # `LogFile`

A log file that is rolled: a new file is opened when the current one is too large, when the day
has changed, and when `rollFile` is called, but only if the clock has advanced since the last
time. Whether the day has changed is looked at each `checkEveryN` lines.

An object is used by one thread at a time, in `append` under its mutex. Whatever a call reads of
the system is an input: the clock, the name of the host, the process id. `gmtime_r` is the
function `calendarTime`. The files that are closed are kept, so that all that was ever written
can be looked at.

`logFile_rolls` is about any sequence of calls, and any behaviour of the clock. The days are
late for at most `max(1, checkEveryN)` lines of a file if the clock does not go back.
-/

namespace Zing.Base

open Lib Detail FileUtil

namespace LogFile

/-- What `getLogFileName` asks the system for, and what is in `timebuf` before. -/
structure Reading where
  now : Int
  hostname : List UInt8
  pid : Int
  junk : List UInt8

/-- The members that do not change. -/
structure Config where
  basename : List UInt8
  rollSize : Int
  flushInterval : Int
  checkEveryN : Int

/-- A file, with what its name was made from. -/
structure File where
  reading : Reading
  filename : List UInt8
  out : AppendFile

/-- A failed assertion, an access outside of a block, or a null pointer. -/
inductive Fault
  | basename
  | outOfBounds (e : OutOfBounds)
  | null
  deriving DecidableEq, Repr

/-- The arguments of `append`: `len` bytes from `logline` on. -/
structure Line where
  logline : List UInt8
  len : Int
  nonneg : 0 ≤ len
  fits : Fits 32 len
  le_length : len ≤ logline.length

def Line.bytes (l : Line) : List UInt8 := l.logline.take l.len.toNat

def kRollPerSeconds : Int := 60 * 60 * 24

end LogFile

open LogFile

/-- `class LogFile`; `closed` are the files that the object has closed. -/
structure LogFile where
  config : Config
  count : Int
  startOfPeriod : Int
  lastRoll : Int
  lastFlush : Int
  file : Option File
  closed : List File

namespace LogFile

/-! ## The functions -/

/-- `".%Y%m%d-%H%M%S."` -/
def stampText (tm : Tm) : List UInt8 :=
  text "." ++ decimal (tm.year + 1900) ++ padZero 2 (tm.mon + 1) ++ padZero 2 tm.mday ++
    text "-" ++ padZero 2 tm.hour ++ padZero 2 tm.min ++ padZero 2 tm.sec ++ text "."

/-- `strftime`, where `chars` is the text in full length: the array is undefined if it is too
small. -/
def strftime (junk : List UInt8) (maxsize : Nat) (chars : List UInt8) : List UInt8 :=
  if chars.length < maxsize then chars else junk

/-- `timebuf` -/
def timebuf (r : Reading) : List UInt8 := strftime r.junk 32 (stampText (calendarTime r.now))

/-- `pidbuf`, cut off behind 31 bytes. -/
def pidbuf (r : Reading) : List UInt8 := (text "." ++ decimal r.pid).take (32 - 1)

/-- `getLogFileName(basename, &now)` -/
def getLogFileName (basename : List UInt8) (r : Reading) : List UInt8 × Int :=
  (basename ++ timebuf r ++ r.hostname ++ pidbuf r ++ text ".log", r.now)

def rollFile (l : LogFile) (r : Reading) : LogFile × Bool :=
  let (filename, now) := getLogFileName l.config.basename r
  let start := now.tdiv kRollPerSeconds * kRollPerSeconds
  if now > l.lastRoll then
    ({ l with
        lastRoll := now
        lastFlush := now
        startOfPeriod := start
        closed := l.closed ++ l.file.toList
        file := some ⟨r, filename, AppendFile.new⟩ }, true)
  else (l, false)

/-- The part of `append_unlocked` that looks at the clock, every `checkEveryN_` lines. -/
def checkPeriod (l : LogFile) (now : Int) (r : Reading) : LogFile :=
  let thisPeriod := now.tdiv kRollPerSeconds * kRollPerSeconds
  if thisPeriod ≠ l.startOfPeriod then (l.rollFile r).1
  else if now - l.lastFlush > l.config.flushInterval then
    -- `flush` hands on what the stream took before
    { l with lastFlush := now }
  else l

/-- What `append_unlocked` does behind `file_->append`. `now` is the clock where the period is
looked at. -/
def afterAppend (l : LogFile) (writtenBytes now : Int) (r : Reading) : LogFile :=
  if writtenBytes > l.config.rollSize then (l.rollFile r).1
  else
    -- no overflow: `count_` stays below `max(1, checkEveryN_)`
    let l := { l with count := l.count + 1 }
    if l.count ≥ l.config.checkEveryN then { l with count := 0 }.checkPeriod now r else l

variable (strerror_tl : Int → List UInt8)

/-- `append_unlocked(logline, len)`; `none` if `file_->append` does not return. -/
def appendUnlocked (l : LogFile) (results : List Fwrite) (line : Line) (now : Int)
    (r : Reading) : Except Fault (Option LogFile) := do
  match l.file with
  | none => .error .null
  | some f =>
      match ← nested .outOfBounds
          (f.out.append strerror_tl results line.logline (toUnsigned 64 line.len)) with
      | none => return none
      | some (out, _) =>
          return some ({ l with file := some { f with out := out } }.afterAppend
            out.writtenBytes now r)

/-- The constructor. -/
def new (config : Config) (r : Reading) : Except Fault LogFile := do
  check (¬ (47 : UInt8) ∈ config.basename) .basename
  let l : LogFile := ⟨config, 0, 0, 0, 0, none, []⟩
  return (l.rollFile r).1

/-! ## Runs -/

/-- A call, with what it reads: `clock` is the time of the call. -/
inductive Action
  | append (line : Line) (results : List Fwrite) (clock now : Int) (r : Reading)
  | rollFile (r : Reading)

/-- The object, and the last reading of the clock. -/
structure World where
  log : LogFile
  clock : Int

def step (w : World) : Action → Option (Except Fault World)
  | .append line results _ now r =>
      match w.log.appendUnlocked strerror_tl results line now r with
      | .error e => some (.error e)
      | .ok none => none
      | .ok (some l) => some (.ok ⟨l, r.now⟩)
  | .rollFile r => some (.ok ⟨(w.log.rollFile r).1, r.now⟩)

/-- A value of `time_t` that is positive. Above 67768036191676799 the year does not fit into
`tm_year`, and `gmtime_r` fails, while `calendarTime` goes on; no clock is that late. -/
def IsTime (t : Int) : Prop := 0 < t ∧ t < 2 ^ 63

instance (t : Int) : Decidable (IsTime t) := inferInstanceAs (Decidable (_ ∧ _))

def runs (config : Config) : System World Action Fault where
  init w := ∃ r, IsTime r.now ∧ new config r = .ok w.log ∧ w.clock = r.now
  step := step strerror_tl

/-- The files, in the order in which they were opened. -/
def files (l : LogFile) : List File := l.closed ++ l.file.toList

def day (t : Int) : Int := t / kRollPerSeconds

/-- A line, the number of files when it was appended, and whether the day of the last one is
earlier than that of the clock. -/
structure Appended where
  bytes : List UInt8
  fileNo : Nat
  late : Bool

def observe (w : World) : Action → List Appended
  | .append line _ clock _ _ =>
      [⟨line.bytes, w.log.files.length,
        w.log.file.any fun f => decide (day f.reading.now < day clock)⟩]
  | .rollFile _ => []

/-- The clock is positive, and writes succeed. -/
def Succeeds (_ : World × List Appended) : Action → Prop
  | .append _ results clock now r =>
      AppendFile.NoError results ∧ IsTime clock ∧ IsTime now ∧ IsTime r.now
  | .rollFile r => IsTime r.now

/-- And the clock does not go back. -/
def Forward (s : World × List Appended) : Action → Prop
  | .append line results clock now r =>
      Succeeds s (.append line results clock now r) ∧
        s.1.clock ≤ clock ∧ clock ≤ now ∧ now ≤ r.now
  | .rollFile r => Succeeds s (.rollFile r) ∧ s.1.clock ≤ r.now

/-! ## What is to hold -/

/-- The lines stand whole in the files, in order: each file has a group of them. -/
def InOrder (fs : List File) (lines : List (List UInt8)) : Prop :=
  ∃ groups : List (List (List UInt8)), groups.flatten = lines ∧
    fs.map (fun f => f.out.fp) = groups.map List.flatten

/-- The current file is that of the last roll, and its name and the period are those of its
time. -/
structure Current (l : LogFile) : Prop where
  file : ∃ f, l.file = some f ∧ f.reading.now = l.lastRoll
  named : ∀ f ∈ l.files, f.filename = (getLogFileName l.config.basename f.reading).1
  period : l.startOfPeriod = day l.lastRoll * kRollPerSeconds

/-- The file is not too large, or the clock that was read has not advanced. -/
def Bounded (l : LogFile) (r : Reading) : Prop :=
  (∃ f, l.file = some f ∧ f.out.writtenBytes ≤ l.config.rollSize) ∨ r.now ≤ l.lastRoll

/-- The lines that went into the file with this number late. -/
def lateInto (log : List Appended) (k : Nat) : Nat :=
  log.countP fun e => e.fileNo = k ∧ e.late

/-! ## The time in a name -/

variable {tm tm' : Tm} {r r' : Reading}

theorem stampText_injective (h : InClock tm) (h' : InClock tm')
    (heq : stampText tm = stampText tm') : tm.SameTime tm' := by
  rw [stampText, stampText] at heq
  obtain ⟨heq, hsec⟩ := padZero_cancel h.sec h'.sec (List.append_cancel_right heq)
  obtain ⟨heq, hmin⟩ := padZero_cancel h.min h'.min heq
  obtain ⟨heq, hhour⟩ := padZero_cancel h.hour h'.hour heq
  obtain ⟨heq, hmday⟩ := padZero_cancel h.mday h'.mday (List.append_cancel_right heq)
  obtain ⟨heq, hmon⟩ := padZero_cancel h.mon h'.mon heq
  have hyear := decimal_injective (List.append_cancel_left heq)
  exact ⟨by omega, by omega, hmday, hhour, hmin, hsec⟩

/-- The year of a time has at most 15 digits. -/
theorem year_lt {t : Int} (h : IsTime t) :
    ((calendarTime t).year + 1900).natAbs < 10 ^ 15 := by
  obtain ⟨hlow, hhigh⟩ := h
  obtain ⟨hvalid, hday⟩ := ofJulianDay_valid (dayOf t)
  have hfirst := hvalid.yearDay_nonneg
  have hlast := hvalid.yearDay_lt
  have hyear : (calendarTime t).year + 1900 = (ofJulianDay (dayOf t)).year := by
    simp only [calendarTime, reading]
    omega
  have hdays : daysInYear (ofJulianDay (dayOf t)).year ≤ 366 := by
    rw [daysInYear]
    split <;> decide
  rw [julianDay, Civil.dayNumber, daysBeforeYear] at hday
  have hdef : dayOf t = t / 86400 + 2440588 := rfl
  rw [hyear]
  omega

/-- `timebuf` is large enough. -/
theorem stampText_length_lt {t : Int} (h : IsTime t) :
    (stampText (calendarTime t)).length < 32 := by
  have hclock := calendarTime_inClock t
  have hyear := decimal_length_le (by decide) (year_lt h)
  have hdot : (text ".").length = 1 := rfl
  have hdash : (text "-").length = 1 := rfl
  simp only [stampText, List.length_append, hdot, hdash,
    length_padZero (w := 2) (by decide) hclock.mon.1 hclock.mon.2,
    length_padZero (w := 2) (by decide) hclock.mday.1 hclock.mday.2,
    length_padZero (w := 2) (by decide) hclock.hour.1 hclock.hour.2,
    length_padZero (w := 2) (by decide) hclock.min.1 hclock.min.2,
    length_padZero (w := 2) (by decide) hclock.sec.1 hclock.sec.2]
  omega

theorem timebuf_eq (h : IsTime r.now) : timebuf r = stampText (calendarTime r.now) :=
  if_pos (stampText_length_lt h)

/-- A stamp is that of one time. -/
theorem timebuf_injective (h : IsTime r.now) (h' : IsTime r'.now) (heq : timebuf r = timebuf r') :
    r.now = r'.now := by
  rw [timebuf_eq h, timebuf_eq h'] at heq
  obtain ⟨hyear, hmon, hmday, hhour, hmin, hsec⟩ :=
    stampText_injective (calendarTime_inClock _) (calendarTime_inClock _) heq
  rw [← calendarInstant_calendarTime r.now, ← calendarInstant_calendarTime r'.now,
    calendarInstant, calendarInstant, hyear, hmon, hmday, hhour, hmin, hsec]

/-! ## What the functions do -/

variable {c : Config} {l : LogFile} {f : File} {results : List Fwrite} {line : Line} {now n t : Int}

/-- The counter and the time of the last flush, which no file depends on. -/
def recount (l : LogFile) (n t : Int) : LogFile := { l with count := n, lastFlush := t }

@[simp] theorem recount_config : (l.recount n t).config = l.config := rfl
@[simp] theorem recount_count : (l.recount n t).count = n := rfl
@[simp] theorem recount_lastRoll : (l.recount n t).lastRoll = l.lastRoll := rfl
@[simp] theorem recount_startOfPeriod : (l.recount n t).startOfPeriod = l.startOfPeriod := rfl
@[simp] theorem recount_file : (l.recount n t).file = l.file := rfl
@[simp] theorem recount_files : (l.recount n t).files = l.files := rfl

/-- The stream of the current file took more. -/
def write (l : LogFile) (f : File) (out : AppendFile) : LogFile :=
  { l with file := some { f with out := out } }

/-- A file with nothing in it. -/
def opened (l : LogFile) (r : Reading) : File :=
  ⟨r, (getLogFileName l.config.basename r).1, AppendFile.new⟩

theorem rollFile_of_lt (h : l.lastRoll < r.now) :
    (l.rollFile r).1 =
      { l with
          lastRoll := r.now
          lastFlush := r.now
          startOfPeriod := r.now.tdiv kRollPerSeconds * kRollPerSeconds
          closed := l.files
          file := some (l.opened r) } := by
  rw [rollFile, getLogFileName]
  simp only [gt_iff_lt, h, if_true]
  rfl

theorem rollFile_of_le (h : r.now ≤ l.lastRoll) : (l.rollFile r).1 = l := by
  rw [rollFile, getLogFileName]
  simp only [gt_iff_lt, not_lt.mpr h, if_false]

/-- Behind `file_->append` the file is rolled or not. Without a roll the file is not too large,
and the line was counted, or it was the last one before the day was looked at. -/
theorem afterAppend_cases (l : LogFile) (writtenBytes now : Int) (r : Reading) :
    (∃ n t, l.afterAppend writtenBytes now r = ((l.recount n t).rollFile r).1 ∧
      (n = l.count ∨ n = 0)) ∨
    (∃ n t, l.afterAppend writtenBytes now r = l.recount n t ∧
      writtenBytes ≤ l.config.rollSize ∧
      (n = l.count + 1 ∧ n < l.config.checkEveryN ∨
        n = 0 ∧ now.tdiv kRollPerSeconds * kRollPerSeconds = l.startOfPeriod)) := by
  rw [afterAppend]
  by_cases hsize : writtenBytes > l.config.rollSize
  · rw [if_pos hsize]
    exact Or.inl ⟨l.count, l.lastFlush, rfl, Or.inl rfl⟩
  rw [if_neg hsize]
  by_cases hcount : l.count + 1 ≥ l.config.checkEveryN
  · simp only [hcount, if_true]
    rw [checkPeriod]
    by_cases hperiod : now.tdiv kRollPerSeconds * kRollPerSeconds ≠ l.startOfPeriod
    · rw [if_pos hperiod]
      exact Or.inl ⟨0, l.lastFlush, rfl, Or.inr rfl⟩
    · rw [if_neg hperiod]
      refine Or.inr ?_
      split
      · exact ⟨0, now, rfl, by omega, Or.inr ⟨rfl, not_not.mp hperiod⟩⟩
      · exact ⟨0, l.lastFlush, rfl, by omega, Or.inr ⟨rfl, not_not.mp hperiod⟩⟩
  · simp only [hcount, if_false]
    exact Or.inr ⟨l.count + 1, l.lastFlush, rfl, by omega, Or.inl ⟨rfl, by omega⟩⟩

theorem Line.toUnsigned_len (line : Line) : toUnsigned 64 line.len = line.len.toNat := by
  obtain ⟨n, hn⟩ := Int.eq_ofNat_of_zero_le line.nonneg
  have hfits := line.fits
  rw [hn, fits_32] at hfits
  rw [hn, toUnsigned_natCast (by omega)]
  rfl

/-- A line that is appended without an error stands behind what is in the file. -/
theorem appendUnlocked_cases (strerror_tl : Int → List UInt8) (hf : l.file = some f)
    (hno : AppendFile.NoError results) :
    l.appendUnlocked strerror_tl results line now r = .ok none ∨
      ∃ out, l.appendUnlocked strerror_tl results line now r =
          .ok (some ((l.write f out).afterAppend out.writtenBytes now r)) ∧
        out.fp = f.out.fp ++ line.bytes := by
  have hlen : line.len.toNat ≤ line.logline.length := by
    have := line.le_length
    omega
  obtain ⟨o, ho⟩ := AppendFile.append_ok strerror_tl f.out results hlen
  rw [appendUnlocked, hf, line.toUnsigned_len]
  simp only [ho, nested_ok, ok_bind]
  cases o with
  | none => exact Or.inl rfl
  | some o =>
      obtain ⟨out, err⟩ := o
      exact Or.inr ⟨out, rfl, (AppendFile.append_whole hlen hno ho).1⟩

/-! ## The files and their names -/

/-- What every call preserves. -/
structure Inv (c : Config) (l : LogFile) : Prop extends Current l where
  config : l.config = c
  sorted : l.files.Pairwise fun f g => f.reading.now < g.reading.now
  times : ∀ f ∈ l.files, IsTime f.reading.now
  count : 0 ≤ l.count ∧ l.count < max 1 c.checkEveryN

/-- The name of a file is left alone by what is written to it. -/
theorem forall_files_write {P : Reading → List UInt8 → Prop} {out : AppendFile}
    (hf : l.file = some f) (h : ∀ g ∈ l.files, P g.reading g.filename) :
    ∀ g ∈ (l.write f out).files, P g.reading g.filename := by
  rw [files, hf] at h
  intro g hg
  simp only [files, write, Option.toList_some, List.mem_append, List.mem_singleton] at h hg
  rcases hg with hg | rfl
  · exact h g (Or.inl hg)
  · exact h f (Or.inr rfl)

theorem Inv.write {out : AppendFile} (h : Inv c l) (hf : l.file = some f) :
    Inv c (l.write f out) := by
  obtain ⟨f', hf', hroll⟩ := h.file
  rw [hf] at hf'
  cases hf'
  refine ⟨⟨⟨_, rfl, hroll⟩, ?_, h.period⟩, h.config, ?_, ?_, h.count⟩
  · exact forall_files_write
      (P := fun r name => name = (getLogFileName l.config.basename r).1) hf h.named
  · have hsorted := h.sorted
    rw [files, hf, Option.toList_some, List.pairwise_append] at hsorted
    rw [files, LogFile.write, Option.toList_some, List.pairwise_append]
    refine ⟨hsorted.1, List.pairwise_singleton _ _, ?_⟩
    intro g hg f' hf'
    rw [List.mem_singleton.mp hf']
    exact hsorted.2.2 g hg f (List.mem_singleton_self f)
  · exact forall_files_write (P := fun r _ => IsTime r.now) hf h.times

theorem Inv.recount (h : Inv c l) (hn : 0 ≤ n ∧ n < max 1 c.checkEveryN) :
    Inv c (l.recount n t) :=
  ⟨⟨h.file, h.named, h.period⟩, h.config, h.sorted, h.times, hn⟩

/-- No file is later than the last roll. -/
theorem Inv.le_lastRoll (h : Inv c l) {g : File} (hg : g ∈ l.files) :
    g.reading.now ≤ l.lastRoll := by
  obtain ⟨f, hf, hroll⟩ := h.file
  have hsorted := h.sorted
  rw [files, hf, Option.toList_some] at hg hsorted
  rw [← hroll]
  rcases List.mem_append.mp hg with hg | hg
  · exact Int.le_of_lt ((List.pairwise_append.mp hsorted).2.2 g hg f (List.mem_singleton_self f))
  · rw [List.mem_singleton.mp hg]

theorem period_eq {now : Int} (h : 0 ≤ now) :
    now.tdiv kRollPerSeconds * kRollPerSeconds = day now * kRollPerSeconds := by
  rw [Int.tdiv_eq_ediv_of_nonneg h]
  rfl

theorem Inv.rollFile (h : Inv c l) (hr : IsTime r.now) : Inv c (l.rollFile r).1 := by
  by_cases hlt : l.lastRoll < r.now
  · have hfiles : (l.rollFile r).1.files = l.files ++ [l.opened r] := by
      rw [rollFile_of_lt hlt]
      rfl
    refine ⟨⟨⟨l.opened r, ?_, ?_⟩, ?_, ?_⟩, ?_, ?_, ?_, ?_⟩
    · rw [rollFile_of_lt hlt]
    · rw [rollFile_of_lt hlt]
      rfl
    · rw [hfiles, rollFile_of_lt hlt]
      intro g hg
      rcases List.mem_append.mp hg with hg | hg
      · exact h.named g hg
      · rw [List.mem_singleton.mp hg]
        rfl
    · rw [rollFile_of_lt hlt]
      exact period_eq (Int.le_of_lt hr.1)
    · rw [rollFile_of_lt hlt]
      exact h.config
    · rw [hfiles, List.pairwise_append]
      refine ⟨h.sorted, List.pairwise_singleton _ _, ?_⟩
      intro g hg f hf
      rw [List.mem_singleton.mp hf]
      exact Int.lt_of_le_of_lt (h.le_lastRoll hg) hlt
    · rw [hfiles]
      intro g hg
      rcases List.mem_append.mp hg with hg | hg
      · exact h.times g hg
      · rw [List.mem_singleton.mp hg]
        exact hr
    · rw [rollFile_of_lt hlt]
      exact h.count
  · rw [rollFile_of_le (Int.not_lt.mp hlt)]
    exact h

theorem Inv.afterAppend (h : Inv c l) (writtenBytes now : Int) (hr : IsTime r.now) :
    Inv c (l.afterAppend writtenBytes now r) := by
  have hpos := h.count.1
  have hzero : 0 ≤ (0 : Int) ∧ 0 < max 1 c.checkEveryN := by omega
  rcases l.afterAppend_cases writtenBytes now r with ⟨n, t, heq, hn⟩ | ⟨n, t, heq, -, hn⟩
  · rw [heq]
    refine (h.recount ?_).rollFile hr
    rcases hn with rfl | rfl
    · exact h.count
    · exact hzero
  · rw [heq]
    refine h.recount ?_
    rw [h.config] at hn
    rcases hn with ⟨rfl, hlt⟩ | ⟨rfl, -⟩
    · omega
    · exact hzero

/-- The constructor opens the first file. -/
theorem inv_new {log : LogFile} (hr : IsTime r.now) (h : new c r = .ok log) : Inv c log := by
  obtain ⟨-, -, heq⟩ := bind_eq_ok.mp h
  cases heq
  have hlt : (0 : Int) < r.now := hr.1
  rw [rollFile_of_lt hlt]
  refine ⟨⟨⟨_, rfl, rfl⟩, ?_, period_eq (Int.le_of_lt hlt)⟩, rfl, ?_, ?_, ?_⟩
  · intro g hg
    rw [List.mem_singleton.mp hg]
    rfl
  · exact List.pairwise_singleton _ _
  · intro g hg
    rw [List.mem_singleton.mp hg]
    exact hr
  · show 0 ≤ (0 : Int) ∧ 0 < max 1 c.checkEveryN
    omega

/-! ## The lines -/

variable {lines : List (List UInt8)} {bytes : List UInt8} {out : AppendFile}

/-- A line goes behind the last group. -/
theorem InOrder.write (h : InOrder l.files lines) (hf : l.file = some f)
    (hout : out.fp = f.out.fp ++ bytes) :
    InOrder (l.write f out).files (lines ++ [bytes]) := by
  obtain ⟨groups, hlines, hfiles⟩ := h
  rw [files, hf, Option.toList_some, List.map_append, List.map_singleton] at hfiles
  obtain ⟨before, last, hgroups, hbefore, hlast⟩ := List.map_eq_append_iff.mp hfiles.symm
  obtain ⟨group, hgroup, hfp⟩ := List.map_eq_singleton_iff.mp hlast
  subst hgroups hgroup
  refine ⟨before ++ [group ++ [bytes]], ?_, ?_⟩
  · rw [← hlines]
    simp only [List.flatten_append, List.flatten_singleton, List.append_assoc]
  · simp only [files, LogFile.write, Option.toList_some, List.map_append, List.map_singleton,
      hbefore, hout, ← hfp, List.flatten_append, List.flatten_singleton]

/-- A new file has no line. -/
theorem InOrder.rollFile (h : InOrder l.files lines) : InOrder (l.rollFile r).1.files lines := by
  by_cases hlt : l.lastRoll < r.now
  · obtain ⟨groups, hlines, hfiles⟩ := h
    refine ⟨groups ++ [[]], ?_, ?_⟩
    · rw [List.flatten_append, hlines]
      exact List.append_nil _
    · rw [rollFile_of_lt hlt, List.map_append, ← hfiles]
      exact List.map_append
  · rw [rollFile_of_le (Int.not_lt.mp hlt)]
    exact h

theorem InOrder.afterAppend (h : InOrder l.files lines) (writtenBytes now : Int) (r : Reading) :
    InOrder (l.afterAppend writtenBytes now r).files lines := by
  rcases l.afterAppend_cases writtenBytes now r with ⟨n, t, heq, -⟩ | ⟨n, t, heq, -⟩
  · rw [heq]
    exact InOrder.rollFile (l := l.recount n t) h
  · rw [heq]
    exact h

/-! ## The size -/

/-- After a roll, or without one, the clock that was read is not ahead of the file. -/
theorem le_lastRoll_rollFile (l : LogFile) (r : Reading) : r.now ≤ (l.rollFile r).1.lastRoll := by
  by_cases hlt : l.lastRoll < r.now
  · rw [rollFile_of_lt hlt]
  · rw [rollFile_of_le (Int.not_lt.mp hlt)]
    exact Int.not_lt.mp hlt

theorem bounded_afterAppend (hf : l.file = some f) (now : Int) (r : Reading) :
    Bounded (l.afterAppend f.out.writtenBytes now r) r := by
  rcases l.afterAppend_cases f.out.writtenBytes now r with ⟨n, t, heq, -⟩ | ⟨n, t, heq, hsize, -⟩
  · rw [heq]
    exact Or.inr (le_lastRoll_rollFile _ r)
  · rw [heq]
    exact Or.inl ⟨f, hf, hsize⟩

/-! ## The day -/

theorem day_le {t t' : Int} (h : t ≤ t') : day t ≤ day t' :=
  Int.ediv_le_ediv (by decide) h

theorem lt_of_day_lt {t t' : Int} (h : day t < day t') : t < t' := by
  by_contra hle
  have := day_le (Int.not_lt.mp hle)
  omega

/-- A line that comes late is counted, or the file is rolled behind it. -/
theorem afterAppend_late (h : Inv c l) (writtenBytes : Int) (hlate : day l.lastRoll < day now)
    (hnow : 0 ≤ now) (hle : now ≤ r.now) :
    ((l.afterAppend writtenBytes now r).files.length = l.files.length + 1) ∨
    ((l.afterAppend writtenBytes now r).files = l.files ∧
      (l.afterAppend writtenBytes now r).count = l.count + 1 ∧
      (l.afterAppend writtenBytes now r).lastRoll = l.lastRoll) := by
  rcases l.afterAppend_cases writtenBytes now r with ⟨n, t, heq, -⟩ | ⟨n, t, heq, -, hn⟩
  · have hlt : (l.recount n t).lastRoll < r.now :=
      Int.lt_of_lt_of_le (lt_of_day_lt hlate) hle
    refine Or.inl ?_
    rw [heq, rollFile_of_lt hlt]
    exact List.length_append
  · rw [heq]
    rcases hn with ⟨rfl, -⟩ | ⟨-, hperiod⟩
    · exact Or.inr ⟨rfl, rfl, rfl⟩
    · -- the day has changed
      rw [period_eq hnow, h.period] at hperiod
      have := Int.eq_of_mul_eq_mul_right (by decide : kRollPerSeconds ≠ 0) hperiod
      omega

/-- No step takes a file away, and a new file is that of a later time. -/
theorem files_length_afterAppend (l : LogFile) (writtenBytes now : Int) (r : Reading) :
    (l.afterAppend writtenBytes now r).files.length = l.files.length ∨
      (l.afterAppend writtenBytes now r).files.length = l.files.length + 1 := by
  rcases l.afterAppend_cases writtenBytes now r with ⟨n, t, heq, -⟩ | ⟨n, t, heq, -⟩
  · rw [heq]
    by_cases hlt : (l.recount n t).lastRoll < r.now
    · rw [rollFile_of_lt hlt]
      exact Or.inr List.length_append
    · rw [rollFile_of_le (Int.not_lt.mp hlt)]
      exact Or.inl rfl
  · rw [heq]
    exact Or.inl rfl

/-- What is known of the late lines: they are counted in `count_` until the file is rolled. -/
structure Late (c : Config) (s : World × List Appended) : Prop where
  later : ∀ k, s.1.log.files.length < k → lateInto s.2 k = 0
  bound : ∀ k, (lateInto s.2 k : Int) ≤ max 1 c.checkEveryN
  current : 0 < lateInto s.2 s.1.log.files.length →
    day s.1.log.lastRoll < day s.1.clock ∧
      (lateInto s.2 s.1.log.files.length : Int) ≤ s.1.log.count

variable {w : World} {log : List Appended} {clock : Int}

theorem Late.le_count (h : Late c (w, log)) (hw : Inv c w.log) :
    (lateInto log w.log.files.length : Int) ≤ w.log.count := by
  have hcount := hw.count.1
  by_cases hpos : 0 < lateInto log w.log.files.length
  · exact (h.current hpos).2
  · omega

theorem lateInto_append (log : List Appended) (e : Appended) (k : Nat) :
    lateInto (log ++ [e]) k = lateInto log k + if e.fileNo = k ∧ e.late then 1 else 0 := by
  rw [lateInto, lateInto, List.countP_append, List.countP_singleton]
  simp only [decide_eq_true_eq]

/-- The day of the current file is that of the last roll. -/
theorem observe_append (hw : Inv c w.log) (now : Int) :
    observe w (.append line results clock now r) =
      [⟨line.bytes, w.log.files.length, decide (day w.log.lastRoll < day clock)⟩] := by
  obtain ⟨f, hf, hroll⟩ := hw.file
  rw [observe, hf, Option.any_some, hroll]

/-- A step that appends nothing, or appends in time. -/
theorem Late.inTime {l' : LogFile} {log' : List Appended} (h : Late c (w, log))
    (hsame : ∀ k, lateInto log' k = lateInto log k)
    (hlength : l'.files.length = w.log.files.length + 1 ∨
      l'.files.length = w.log.files.length ∧
        (lateInto log w.log.files.length = 0 ∨ l' = w.log ∧ day w.clock ≤ day clock)) :
    Late c (⟨l', clock⟩, log') := by
  refine ⟨?_, ?_, ?_⟩
  · intro k hk
    have hk : l'.files.length < k := hk
    rw [hsame]
    exact h.later k (show w.log.files.length < k by omega)
  · intro k
    rw [hsame]
    exact h.bound k
  · intro hpos
    have hpos : 0 < lateInto log' l'.files.length := hpos
    rw [hsame] at hpos
    rcases hlength with hmore | ⟨heq, hzero | ⟨rfl, hday⟩⟩
    · have hnone : lateInto log l'.files.length = 0 :=
        h.later _ (show w.log.files.length < l'.files.length by omega)
      omega
    · rw [heq] at hpos
      omega
    · obtain ⟨hlate, hcount⟩ := h.current hpos
      refine ⟨Int.lt_of_lt_of_le hlate hday, ?_⟩
      show (lateInto log' _ : Int) ≤ _
      rw [hsame]
      exact hcount

theorem Late.rollFile (h : Late c (w, log)) (hclock : w.clock ≤ r.now) :
    Late c (⟨(w.log.rollFile r).1, r.now⟩, log) := by
  refine h.inTime (fun _ => rfl) ?_
  by_cases hlt : w.log.lastRoll < r.now
  · rw [rollFile_of_lt hlt]
    exact Or.inl List.length_append
  · rw [rollFile_of_le (Int.not_lt.mp hlt)]
    exact Or.inr ⟨rfl, Or.inr ⟨rfl, day_le hclock⟩⟩

theorem files_length_write (hf : l.file = some f) (out : AppendFile) :
    (l.write f out).files.length = l.files.length := by
  simp only [files, LogFile.write, hf, Option.toList_some, List.length_append,
    List.length_singleton]

/-- A line that comes late is counted, or it is the last one of its file. -/
theorem Late.append_late {e : Appended} (h : Late c (w, log)) (hw : Inv c w.log)
    (hf : w.log.file = some f) (he : e.fileNo = w.log.files.length) (hlate : e.late = true)
    (hday : day w.log.lastRoll < day now) (hnow : 0 ≤ now) (hr : now ≤ r.now)
    (writtenBytes : Int) :
    Late c (⟨(w.log.write f out).afterAppend writtenBytes now r, r.now⟩, log ++ [e]) := by
  have hlength := files_length_write hf out
  have hcount := h.le_count hw
  have hmax := hw.count.2
  have hone : lateInto (log ++ [e]) w.log.files.length
      = lateInto log w.log.files.length + 1 := by
    rw [lateInto_append, if_pos ⟨he, hlate⟩]
  have hother : ∀ k, k ≠ w.log.files.length → lateInto (log ++ [e]) k = lateInto log k := by
    intro k hk
    rw [lateInto_append, if_neg fun hand => hk (hand.1.symm.trans he), Nat.add_zero]
  have hlater : ∀ k, w.log.files.length < k → lateInto (log ++ [e]) k = 0 := by
    intro k hk
    rw [hother k (by omega)]
    exact h.later k hk
  refine ⟨?_, ?_, ?_⟩
  · intro k hk
    have hmore := (w.log.write f out).files_length_afterAppend writtenBytes now r
    have hk : ((w.log.write f out).afterAppend writtenBytes now r).files.length < k := hk
    exact hlater k (by omega)
  · intro k
    show (lateInto (log ++ [e]) k : Int) ≤ max 1 c.checkEveryN
    by_cases hk : k = w.log.files.length
    · rw [hk, hone]
      omega
    · rw [hother k hk]
      exact h.bound k
  · intro hpos
    simp only at hpos ⊢
    have hwrite : Inv c (w.log.write f out) := hw.write hf
    rcases afterAppend_late hwrite writtenBytes hday hnow hr with
      hmore | ⟨hfiles, hcount', hroll⟩
    · rw [hlater _ (by omega)] at hpos
      omega
    · have hroll' : (w.log.write f out).lastRoll = w.log.lastRoll := rfl
      have hcount'' : (w.log.write f out).count = w.log.count := rfl
      rw [hfiles, hlength, hone, hcount', hcount'', hroll, hroll']
      exact ⟨Int.lt_of_lt_of_le hday (day_le hr), by omega⟩

/-- A line that comes in time, as all lines of its file before. -/
theorem Late.append_inTime {e : Appended} (h : Late c (w, log)) (hf : w.log.file = some f)
    (hlate : ¬ e.late = true) (hzero : lateInto log w.log.files.length = 0)
    (writtenBytes now : Int) (r : Reading) :
    Late c (⟨(w.log.write f out).afterAppend writtenBytes now r, r.now⟩, log ++ [e]) := by
  have hlength := files_length_write hf out
  have hsame : ∀ k, lateInto (log ++ [e]) k = lateInto log k := by
    intro k
    rw [lateInto_append, if_neg fun hand => hlate hand.2, Nat.add_zero]
  refine h.inTime hsame ?_
  rcases (w.log.write f out).files_length_afterAppend writtenBytes now r with heq | heq
  · exact Or.inr ⟨heq.trans hlength, Or.inl hzero⟩
  · exact Or.inl (heq.trans (congrArg (· + 1) hlength))

theorem Late.append {e : Appended} (h : Late c (w, log)) (hw : Inv c w.log)
    (hf : w.log.file = some f) (he : e.fileNo = w.log.files.length)
    (hlate : e.late = true ↔ day w.log.lastRoll < day clock) (hclock : w.clock ≤ clock)
    (hclock₀ : 0 < clock) (hnow : clock ≤ now) (hr : now ≤ r.now) (writtenBytes : Int) :
    Late c (⟨(w.log.write f out).afterAppend writtenBytes now r, r.now⟩, log ++ [e]) := by
  by_cases hday : day w.log.lastRoll < day clock
  · have hday' : day w.log.lastRoll < day now := Int.lt_of_lt_of_le hday (day_le hnow)
    exact h.append_late hw hf he (hlate.mpr hday) hday' (by omega) hr writtenBytes
  · have hzero : lateInto log w.log.files.length = 0 := by
      by_contra hpos
      have hpast := (h.current (Nat.pos_of_ne_zero hpos)).1
      exact hday (Int.lt_of_lt_of_le hpast (day_le hclock))
    exact h.append_inTime hf (fun he => hday (hlate.mp he)) hzero writtenBytes now r

/-! ## Runs -/

variable {strerror_tl : Int → List UInt8} {s u : World × List Appended} {a : Action}

/-- What every call preserves, with the lines that were appended. -/
structure Kept (c : Config) (s : World × List Appended) : Prop where
  inv : Inv c s.1.log
  order : InOrder s.1.log.files (s.2.map Appended.bytes)

/-- A step of `append`: the line is written, and then the file may be rolled. -/
theorem step_append (clock : Int) (hw : Inv c w.log) (hno : AppendFile.NoError results) :
    step strerror_tl w (.append line results clock now r) = none ∨
      ∃ f out, w.log.file = some f ∧ out.fp = f.out.fp ++ line.bytes ∧
        step strerror_tl w (.append line results clock now r) =
          some (.ok ⟨(w.log.write f out).afterAppend out.writtenBytes now r, r.now⟩) := by
  obtain ⟨f, hf, -⟩ := hw.file
  rw [step]
  rcases appendUnlocked_cases strerror_tl hf hno with hnone | ⟨out, hout, hfp⟩
  · rw [hnone]
    exact Or.inl rfl
  · rw [hout]
    exact Or.inr ⟨f, out, hf, hfp, rfl⟩

theorem next_append {w' : World} (hw : Inv c w.log) (hno : AppendFile.NoError results)
    (hn : (runs strerror_tl c).Next w (.append line results clock now r) w') :
    ∃ f out, w.log.file = some f ∧ out.fp = f.out.fp ++ line.bytes ∧
      w' = ⟨(w.log.write f out).afterAppend out.writtenBytes now r, r.now⟩ := by
  rcases step_append clock hw hno with hnone | ⟨f, out, hf, hfp, hok⟩
  · exact nomatch hnone.symm.trans hn
  · cases hok.symm.trans hn
    exact ⟨f, out, hf, hfp, rfl⟩

/-- No step fails. -/
theorem Inv.not_fails (hw : Inv c w.log) (ha : Succeeds (w, log) a) (e : Fault) :
    ¬ (runs strerror_tl c).Fails w a e := by
  intro hfails
  cases a with
  | append line results clock now r =>
      obtain ⟨hno, -⟩ : AppendFile.NoError results ∧ _ := ha
      rcases step_append clock hw hno with hnone | ⟨f, out, -, -, hok⟩
      · exact nomatch hnone.symm.trans hfails
      · exact nomatch hok.symm.trans hfails
  | rollFile r => cases hfails

theorem Kept.next (h : Kept c s) (ha : Succeeds s a)
    (hn : ((runs strerror_tl c).logged observe).Next s a u) : Kept c u := by
  obtain ⟨w, log⟩ := s
  obtain ⟨w', log'⟩ := u
  obtain ⟨hstep, hlog⟩ : (runs strerror_tl c).Next w a w' ∧ log' = log ++ observe w a :=
    System.logged_next.mp hn
  subst hlog
  have hw : Inv c w.log := h.inv
  cases a with
  | append line results clock now r =>
      obtain ⟨hno, -, -, hr⟩ : AppendFile.NoError results ∧ _ ∧ _ ∧ IsTime r.now := ha
      obtain ⟨f, out, hf, hfp, rfl⟩ := next_append hw hno hstep
      refine ⟨(hw.write hf).afterAppend _ now hr, ?_⟩
      rw [observe_append hw, List.map_append]
      exact (h.order.write hf hfp).afterAppend _ now r
  | rollFile r =>
      cases hstep
      refine ⟨hw.rollFile ha, ?_⟩
      rw [observe, List.append_nil]
      exact h.order.rollFile

theorem Late.next (h : Late c s) (hs : Kept c s) (ha : Forward s a)
    (hn : ((runs strerror_tl c).logged observe).Next s a u) : Late c u := by
  obtain ⟨w, log⟩ := s
  obtain ⟨w', log'⟩ := u
  obtain ⟨hstep, hlog⟩ : (runs strerror_tl c).Next w a w' ∧ log' = log ++ observe w a :=
    System.logged_next.mp hn
  subst hlog
  have hw : Inv c w.log := hs.inv
  cases a with
  | append line results clock now r =>
      obtain ⟨⟨hno, hclock₀, -⟩, hclock, hnow, hr⟩ :
        (AppendFile.NoError results ∧ IsTime clock ∧ _) ∧ w.clock ≤ clock ∧ clock ≤ now ∧
          now ≤ r.now := ha
      obtain ⟨f, out, hf, -, rfl⟩ := next_append hw hno hstep
      rw [observe_append hw]
      exact h.append hw hf rfl decide_eq_true_iff hclock hclock₀.1 hnow hr _
  | rollFile r =>
      cases hstep
      rw [observe, List.append_nil]
      exact h.rollFile ha.2

theorem kept_init (h : ((runs strerror_tl c).logged observe).init s) :
    Kept c s ∧ Late c s := by
  obtain ⟨w, log⟩ := s
  obtain ⟨⟨r, hr, hnew, -⟩, hlog⟩ :
    (∃ r : Reading, IsTime r.now ∧ new c r = .ok w.log ∧ w.clock = r.now) ∧ log = [] := h
  subst hlog
  have hw := inv_new hr hnew
  have hnone : ∀ k, lateInto [] k = 0 := fun _ => rfl
  refine ⟨⟨hw, ?_⟩, ?_⟩
  · obtain ⟨-, -, heq⟩ := bind_eq_ok.mp hnew
    have hempty : InOrder (LogFile.files ⟨c, 0, 0, 0, 0, none, []⟩) [] := ⟨[], rfl, rfl⟩
    show InOrder w.log.files []
    rw [← Except.ok.inj heq]
    exact hempty.rollFile
  · refine ⟨fun k _ => hnone k, fun k => ?_, fun hpos => absurd hpos (Nat.lt_irrefl 0)⟩
    show ((0 : Nat) : Int) ≤ max 1 c.checkEveryN
    omega

theorem Forward.succeeds (h : Forward s a) : Succeeds s a := by
  cases a with
  | append line results clock now r => exact h.1
  | rollFile r => exact h.1

/-- What is promised of the files, whatever the clock does. -/
structure Rolls (strerror_tl : Int → List UInt8) (c : Config) (s : World × List Appended) :
    Prop where
  order : InOrder s.1.log.files (s.2.map Appended.bytes)
  stamps : (s.1.log.files.map fun f => timebuf f.reading).Nodup
  current : Current s.1.log
  no_fault : ∀ a e, Succeeds s a → ¬ (runs strerror_tl c).Fails s.1 a e
  bounded : ∀ line results clock now r w', Succeeds s (.append line results clock now r) →
    (runs strerror_tl c).Next s.1 (.append line results clock now r) w' → Bounded w'.log r

/-- The files of a run, whatever the clock does: every line is whole in one file, in order; no
two files have one stamp; the last roll is that of the current file. No call fails, and behind
an `append` the file is not too large, or the clock has not advanced. If the clock does not go
back, at most `max(1, checkEveryN)` lines of a file come later than its day. -/
theorem logFile_rolls (strerror_tl : Int → List UInt8) (c : Config) (s : World × List Appended)
    (h : ((runs strerror_tl c).logged observe).Reachable Succeeds s) :
    Rolls strerror_tl c s ∧
      (((runs strerror_tl c).logged observe).Reachable Forward s →
        ∀ k, (lateInto s.2 k : Int) ≤ max 1 c.checkEveryN) := by
  have hkept : Kept c s :=
    h.invariant (fun s h₀ => (kept_init h₀).1) fun s a u hs ha hn => hs.next ha hn
  refine ⟨⟨hkept.order, ?_, hkept.inv.toCurrent, ?_, ?_⟩, ?_⟩
  · apply List.pairwise_map.mpr
    apply hkept.inv.sorted.imp_of_mem
    intro f g hf hg hlt heq
    have hsame := timebuf_injective (hkept.inv.times f hf) (hkept.inv.times g hg) heq
    omega
  · intro a e ha
    exact hkept.inv.not_fails ha e
  · intro line results clock now r w' ha hn
    obtain ⟨hno, -⟩ : AppendFile.NoError results ∧ _ := ha
    obtain ⟨f, out, hf, -, rfl⟩ := next_append hkept.inv hno hn
    have hfile : (s.1.log.write f out).file = some { f with out := out } := rfl
    exact bounded_afterAppend hfile now r
  · intro hforward
    have hboth : Kept c s ∧ Late c s := by
      apply hforward.invariant
      · intro s h₀
        exact kept_init h₀
      · intro s a u hs ha hn
        exact ⟨hs.1.next ha.succeeds hn, hs.2.next hs.1 ha hn⟩
    exact hboth.2.bound

/-! ### A file that is rolled -/

def sampleConfig : Config := ⟨text "zing", 3, 3, 1024⟩

def sampleReading (now : Int) : Reading := ⟨now, text "host", 42, []⟩

def sampleLine : Line := ⟨text "ab", 2, by decide, by decide, by decide⟩

/-- Two lines fill a file, and the third goes into the next one. -/
def sampleCalls : List Action :=
  [.append sampleLine [⟨1, 0⟩, ⟨1, 0⟩] 5 5 (sampleReading 5),
    .append sampleLine [⟨2, 0⟩] 6 6 (sampleReading 6),
    .append sampleLine [⟨2, 0⟩] 6 6 (sampleReading 6)]

theorem logFile_rolls_sample : ∃ s : World × List Appended,
    ((runs (fun _ => []) sampleConfig).logged observe).Reachable Forward s ∧
      s.1.log.files.map (fun f => f.out.fp) = [text "abab", text "ab"] ∧
      Rolls (fun _ => []) sampleConfig s ∧ ∀ k, (lateInto s.2 k : Int) ≤ max 1 1024 := by
  have hinit : ((runs (fun _ => []) sampleConfig).logged observe).init
      (⟨((⟨sampleConfig, 0, 0, 0, 0, none, []⟩ : LogFile).rollFile (sampleReading 5)).1, 5⟩, []) :=
    ⟨⟨sampleReading 5, by decide, rfl, rfl⟩, rfl⟩
  have hno : ∀ k : Nat, AppendFile.NoError [⟨k, 0⟩] := by simp [AppendFile.NoError]
  have hfive : IsTime 5 := by decide
  have hsix : IsTime 6 := by decide
  have hrun : ∃ s, ((runs (fun _ => []) sampleConfig).logged observe).Run Forward
      (⟨((⟨sampleConfig, 0, 0, 0, 0, none, []⟩ : LogFile).rollFile (sampleReading 5)).1, 5⟩, [])
      sampleCalls s ∧ s.1.log.files.map (fun f => f.out.fp) = [text "abab", text "ab"] := by
    refine ⟨_, .cons ?_ rfl (.cons ?_ rfl (.cons ?_ rfl .nil)), rfl⟩
    · exact ⟨⟨by simp [AppendFile.NoError], hfive, hfive, hfive⟩, by decide, by decide, by decide⟩
    · exact ⟨⟨hno 2, hsix, hsix, hsix⟩, by decide, by decide, by decide⟩
    · exact ⟨⟨hno 2, hsix, hsix, hsix⟩, by decide, by decide, by decide⟩
  obtain ⟨s, hrun, hfiles⟩ := hrun
  have hreach := (System.Reachable.of_init hinit).run hrun
  have hrolls := logFile_rolls (fun _ => []) sampleConfig s
    (hreach.weaken fun _ _ => Forward.succeeds)
  exact ⟨s, hreach, hfiles, hrolls.1, hrolls.2 hreach⟩

end LogFile

end Zing.Base
