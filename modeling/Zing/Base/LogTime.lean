import Zing.Base.LogStream
import Zing.Base.Printf
import Zing.Base.TimeZoneRoundTrip

set_option autoImplicit false

/-! # The time of a log record

`formatTime` writes the time of a record. Each thread keeps the text of the second it logged in
last, and writes that again in the same second. The time zone is global, and changing it does not
touch the texts that are kept: `log_time_right_iff` shows that this is how a record gets a wrong
time, together with the second 0, for which a thread that has not logged yet takes itself to have
the text.

`gmtime_r` is the function `calendarTime`. What stands in memory that is not initialised is an
argument.
-/

namespace Zing.Base

open Lib Detail

/-- What a log statement fails with: an access outside of a table or a block of memory, or an
assertion. -/
inductive LogFault
  | zone (e : Fault)
  | fmt (e : Fmt.Fault)
  | stream (e : OutOfBounds)
  | timeLength
  | usLength
  | strlen
  deriving DecidableEq, Repr

/-- The number of bytes before the terminator. -/
def strlen (str : List UInt8) : Nat := (str.takeWhile (· ≠ 0)).length

/-- `class T`: the memory from `str_` on, and `len_`, as the constructor asserts. -/
structure T where
  str : List UInt8
  len : Nat
  len_eq : strlen str = len

/-- `T(str, len)` -/
def T.ofString (str : List UInt8) (len : Nat) : Except LogFault T :=
  if h : strlen str = len then .ok ⟨str, len, h⟩ else .error .strlen

/-- The bytes that `operator<<` appends. -/
def T.text (t : T) : List UInt8 := t.str.take t.len

/-- `t_lastSecond` and `t_time` of a thread. -/
structure TimeCache where
  lastSecond : Int
  time : Memory UInt8 64

/-- A thread begins with zeros. -/
def TimeCache.zero : TimeCache where
  lastSecond := 0
  time := ⟨List.replicate 64 0, List.length_replicate⟩

def kMicroSecondsPerSecond : Int := 1000 * 1000

/-- The broken-down time in the zone, in UTC if there is none. -/
def brokenDown (zone : Option Data) (seconds : Int) : Except LogFault Tm :=
  match zone with
  | some data => nested .zone (toLocalTime calendarTime data seconds)
  | none => .ok (calendarTime seconds)

/-- `"%4d%02d%02d %02d:%02d:%02d"` -/
def timeText (tm : Tm) : List UInt8 :=
  padSpace 4 (tm.year + 1900) ++ padZero 2 (tm.mon + 1) ++ padZero 2 tm.mday ++ text " " ++
    padZero 2 tm.hour ++ text ":" ++ padZero 2 tm.min ++ text ":" ++ padZero 2 tm.sec

/-- The text of a second is written anew. -/
def TimeCache.rewrite (cache : TimeCache) (zone : Option Data) (seconds : Int) :
    Except LogFault TimeCache := do
  let tm ← brokenDown zone seconds
  let (time, len) ← nested .stream (snprintf cache.time 0 64 (timeText tm))
  check (len = 17) .timeLength
  return ⟨seconds, time⟩

/-- The text `us` of `len` characters, and the two texts that go to the stream. -/
def usTexts (cache : TimeCache) (buf : Memory UInt8 32) (us : List UInt8) (len : Nat) :
    Except LogFault (T × T) := do
  let us ← nested .fmt (Fmt.ofFormat buf us)
  check (us.length = len) .usLength
  let time ← T.ofString cache.time.cells 17
  let us ← T.ofString us.buf.cells len
  return (time, us)

/-- The part of `formatTime` behind the cache. -/
def timeTexts (cache : TimeCache) (zone : Option Data) (buf : Memory UInt8 32)
    (microseconds : Int) : Except LogFault (T × T) :=
  if zone.isSome then usTexts cache buf (text "." ++ padZero 6 microseconds ++ text " ") 8
  else usTexts cache buf (text "." ++ padZero 6 microseconds ++ text "Z ") 9

/-- `Logger::Impl::formatTime`, without the stream. -/
def formatTime (cache : TimeCache) (zone : Option Data) (buf : Memory UInt8 32)
    (microSecondsSinceEpoch : Int) : Except LogFault (TimeCache × T × T) := do
  let seconds := microSecondsSinceEpoch.tdiv kMicroSecondsPerSecond
  let microseconds := microSecondsSinceEpoch.tmod kMicroSecondsPerSecond
  let cache ← if seconds ≠ cache.lastSecond then cache.rewrite zone seconds else pure cache
  let texts ← timeTexts cache zone buf microseconds
  return (cache, texts)

/-- `formatTime` as it would be without the cache. -/
def formatTimeAnew (cache : TimeCache) (zone : Option Data) (buf : Memory UInt8 32)
    (microSecondsSinceEpoch : Int) : Except LogFault (TimeCache × T × T) := do
  let seconds := microSecondsSinceEpoch.tdiv kMicroSecondsPerSecond
  let microseconds := microSecondsSinceEpoch.tmod kMicroSecondsPerSecond
  let cache ← cache.rewrite zone seconds
  let texts ← timeTexts cache zone buf microseconds
  return (cache, texts)

/-- What stands in the record. -/
def written (r : Except LogFault (TimeCache × T × T)) : Except LogFault (List UInt8) :=
  r.map fun c => c.2.1.text ++ c.2.2.text

/-! ## What is to be written -/

/-- The microseconds, with a `Z` for UTC. -/
def microText (zone : Option Data) (microseconds : Int) : List UInt8 :=
  if zone.isSome then text "." ++ padZero 6 microseconds ++ text " "
  else text "." ++ padZero 6 microseconds ++ text "Z "

/-- The rendering of a time stamp in a zone, if it has 17 characters before the microseconds. -/
def timeStamp (zone : Option Data) (microSecondsSinceEpoch : Int) :
    Except LogFault (List UInt8) := do
  let tm ← brokenDown zone (microSecondsSinceEpoch.tdiv kMicroSecondsPerSecond)
  check ((timeText tm).length = 17) .timeLength
  return timeText tm ++ microText zone (microSecondsSinceEpoch.tmod kMicroSecondsPerSecond)

/-- The offset of the zone from UTC. -/
def utcOffset (zone : Option Data) (seconds : Int) : Except LogFault Int :=
  (brokenDown zone seconds).map Tm.gmtoff

/-! ## Runs -/

/-- The threads of a program with their texts, and its records: what `formatTime` wrote, and what
it is to write. `rendered` is the zone in which the text of a thread was written. -/
structure LogTimes (Thread : Type) where
  zone : Option Data
  cache : Thread → TimeCache
  rendered : Thread → Option (Option Data)
  records : List (List UInt8 × Except LogFault (List UInt8))

namespace LogTimes

/-- The time of a statement is not before 1970. -/
inductive Action (Thread : Type)
  | setTimeZone (tz : Option Data)
  | log (th : Thread) (buf : Memory UInt8 32) (micros : Nat)

def second (micros : Nat) : Int := (micros : Int).tdiv kMicroSecondsPerSecond

variable {Thread : Type} [DecidableEq Thread]

/-- A log statement of a thread. -/
def log (s : LogTimes Thread) (th : Thread) (buf : Memory UInt8 32) (micros : Nat) :
    Except LogFault (LogTimes Thread) := do
  let (cache, time, us) ← formatTime (s.cache th) s.zone buf micros
  return { s with
    cache := Function.update s.cache th cache
    rendered := if second micros ≠ (s.cache th).lastSecond then
        Function.update s.rendered th (some s.zone)
      else s.rendered
    records := s.records ++ [(time.text ++ us.text, timeStamp s.zone micros)] }

def step (s : LogTimes Thread) : Action Thread → Option (Except LogFault (LogTimes Thread))
  | .setTimeZone tz => some (.ok { s with zone := tz })
  | .log th buf micros => some (s.log th buf micros)

/-- The start of a program: no zone is set, and no thread has logged. -/
structure Start (s : LogTimes Thread) : Prop where
  zone : s.zone = none
  cache : ∀ th, s.cache th = TimeCache.zero
  rendered : ∀ th, s.rendered th = none
  records : s.records = []

def runs (Thread : Type) [DecidableEq Thread] :
    System (LogTimes Thread) (Action Thread) LogFault where
  init := Start
  step := step

/-- Every record has the time it is to have. -/
def Right (s : LogTimes Thread) : Prop := ∀ r ∈ s.records, r.2 = .ok r.1

/-- A statement does not use a text that is kept, or one that was written in a zone with the
same offset at that second. -/
def Fresh (s : LogTimes Thread) : Action Thread → Prop
  | .setTimeZone _ => True
  | .log th _ micros => second micros ≠ (s.cache th).lastSecond ∨
      ∃ zone, s.rendered th = some zone ∧
        utcOffset zone (second micros) = utcOffset s.zone (second micros)

end LogTimes

/-! ## Strings in memory -/

variable {xs : List UInt8} {zone : Option Data} {seconds : Int} {tm tm' : Tm}

theorem strlen_terminated (hxs : Printable xs) (l : List UInt8) :
    strlen (xs ++ 0 :: l) = xs.length := by
  have hzero : ∀ c ∈ xs, (decide (c ≠ 0)) = true := by
    intro c hc
    rw [decide_eq_true_iff]
    rintro rfl
    exact hxs.not_mem (by decide) hc
  rw [strlen, List.takeWhile_append_of_pos hzero]
  simp

theorem ofString_terminated (hxs : Printable xs) (l : List UInt8) :
    ∃ t, T.ofString (xs ++ 0 :: l) xs.length = .ok t ∧ t.text = xs := by
  refine ⟨_, dif_pos (strlen_terminated hxs l), ?_⟩
  exact List.take_left' rfl

theorem ofString_written {n : Nat} {m m' : Memory UInt8 n} (h : m.write 0 (xs ++ [0]) = .ok m')
    (hxs : Printable xs) : ∃ t, T.ofString m'.cells xs.length = .ok t ∧ t.text = xs := by
  have htake := Memory.take_write h
  rw [List.take_zero, List.nil_append] at htake
  have hcells : m'.cells = xs ++ 0 :: m'.cells.drop (0 + (xs ++ [0]).length) := by
    conv_lhs => rw [← List.take_append_drop (0 + (xs ++ [0]).length) m'.cells, htake]
    rw [List.append_assoc]
    rfl
  rw [hcells]
  exact ofString_terminated hxs _

theorem T.ofString_len {str : List UInt8} {len : Nat} {t : T} (h : T.ofString str len = .ok t) :
    t.len = len := by
  rw [T.ofString] at h
  split at h
  · cases h
    rfl
  · cases h

/-- The length of a `T` is that of its text. -/
theorem T.length_text (t : T) : t.text.length = t.len := by
  have hle : strlen t.str ≤ t.str.length := (List.takeWhile_prefix _).length_le
  rw [t.len_eq] at hle
  rw [T.text, List.length_take, Nat.min_eq_left hle]

/-! ## The rendering -/

theorem printable_timeText (tm : Tm) : Printable (timeText tm) := by
  have hblank : Printable (text " ") := by decide
  have hcolon : Printable (text ":") := by decide
  exact ((((((((printable_padSpace _ _).append (printable_padZero _ _)).append
    (printable_padZero _ _)).append hblank).append (printable_padZero _ _)).append
    hcolon).append (printable_padZero _ _)).append hcolon).append (printable_padZero _ _)

/-- The fields of a broken-down time that are printed with two digits are in their ranges. -/
structure InClock (tm : Tm) : Prop where
  sec : 0 ≤ tm.sec ∧ tm.sec < 100
  min : 0 ≤ tm.min ∧ tm.min < 100
  hour : 0 ≤ tm.hour ∧ tm.hour < 100
  mday : 0 ≤ tm.mday ∧ tm.mday < 100
  mon : 0 ≤ tm.mon + 1 ∧ tm.mon + 1 < 100

theorem calendarTime_inClock (t : Int) : InClock (calendarTime t) := by
  obtain ⟨h, -⟩ := ofJulianDay_valid (dayOf t)
  have hmonth := h.month_pos
  have hmonth' := h.month_le
  have hday := h.day_pos
  have hday' := Int.le_trans h.day_le (daysInMonth_le _ _)
  constructor
  all_goals
    simp only [calendarTime, reading]
    omega

/-- The fields that are printed. -/
def Tm.SameTime (tm tm' : Tm) : Prop :=
  tm.year = tm'.year ∧ tm.mon = tm'.mon ∧ tm.mday = tm'.mday ∧ tm.hour = tm'.hour ∧
    tm.min = tm'.min ∧ tm.sec = tm'.sec

theorem Tm.SameTime.timeText_eq (h : tm.SameTime tm') : timeText tm = timeText tm' := by
  obtain ⟨hyear, hmon, hmday, hhour, hmin, hsec⟩ := h
  rw [timeText, timeText, hyear, hmon, hmday, hhour, hmin, hsec]

theorem padZero_cancel {l l' : List UInt8} {u v : Int} (hu : 0 ≤ u ∧ u < 100)
    (hv : 0 ≤ v ∧ v < 100) (h : l ++ padZero 2 u = l' ++ padZero 2 v) : l = l' ∧ u = v := by
  have hlen : (padZero 2 u).length = (padZero 2 v).length := by
    rw [length_padZero (by decide) hu.1 hu.2, length_padZero (by decide) hv.1 hv.2]
  obtain ⟨hl, hpad⟩ := List.append_inj' h hlen
  exact ⟨hl, padZero_injective hu.1 hv.1 hpad⟩

/-- The text says all that is printed. -/
theorem timeText_injective (h : InClock tm) (h' : InClock tm')
    (heq : timeText tm = timeText tm') : tm.SameTime tm' := by
  rw [timeText, timeText] at heq
  obtain ⟨heq, hsec⟩ := padZero_cancel h.sec h'.sec heq
  obtain ⟨heq, hmin⟩ := padZero_cancel h.min h'.min (List.append_cancel_right heq)
  obtain ⟨heq, hhour⟩ := padZero_cancel h.hour h'.hour (List.append_cancel_right heq)
  obtain ⟨heq, hmday⟩ := padZero_cancel h.mday h'.mday (List.append_cancel_right heq)
  obtain ⟨heq, hmon⟩ := padZero_cancel h.mon h'.mon heq
  have hyear := padSpace_injective heq
  exact ⟨by omega, by omega, hmday, hhour, hmin, hsec⟩

/-- The broken-down time is that of UTC, moved by the offset. -/
theorem brokenDown_sameTime (h : brokenDown zone seconds = .ok tm) :
    tm.SameTime (calendarTime (seconds + tm.gmtoff)) := by
  cases zone with
  | none =>
      cases h
      have hzero : (calendarTime seconds).gmtoff = 0 := rfl
      rw [hzero, Int.add_zero]
      exact ⟨rfl, rfl, rfl, rfl, rfl, rfl⟩
  | some data =>
      have hlocal : toLocalTime calendarTime data seconds = .ok tm := nested_eq_ok.mp h
      rw [toLocalTime] at hlocal
      obtain ⟨found, -, hlocal⟩ := bind_eq_ok.mp hlocal
      obtain ⟨abbreviation, -, hlocal⟩ := bind_eq_ok.mp hlocal
      cases hlocal
      exact ⟨rfl, rfl, rfl, rfl, rfl, rfl⟩

/-- Two readings of a second look the same if the offsets are the same, and only then. -/
theorem timeText_eq_iff {zone' : Option Data} (h : brokenDown zone seconds = .ok tm)
    (h' : brokenDown zone' seconds = .ok tm') :
    timeText tm = timeText tm' ↔ tm.gmtoff = tm'.gmtoff := by
  have hsame := brokenDown_sameTime h
  have hsame' := brokenDown_sameTime h'
  constructor
  · intro heq
    rw [hsame.timeText_eq, hsame'.timeText_eq] at heq
    obtain ⟨hyear, hmon, hmday, hhour, hmin, hsec⟩ :=
      timeText_injective (calendarTime_inClock _) (calendarTime_inClock _) heq
    have hinstant := calendarInstant_calendarTime (seconds + tm.gmtoff)
    rw [calendarInstant, hyear, hmon, hmday, hhour, hmin, hsec] at hinstant
    have hinstant' := calendarInstant_calendarTime (seconds + tm'.gmtoff)
    rw [calendarInstant] at hinstant'
    omega
  · intro heq
    rw [hsame.timeText_eq, hsame'.timeText_eq, heq]

/-! ## What `formatTime` writes -/

/-- The text that is kept. -/
def TimeCache.Shows (cache : TimeCache) (xs : List UInt8) : Prop :=
  ∃ m : Memory UInt8 64, m.write 0 (xs ++ [0]) = .ok cache.time

variable {cache : TimeCache} {buf : Memory UInt8 32} {us : List UInt8}

theorem usTexts_eq (hshows : cache.Shows xs) (hxs : Printable xs) (h17 : xs.length = 17)
    (hus : Printable us) (hlen : us.length < 32) :
    ∃ r, usTexts cache buf us us.length = .ok r ∧ r.1.text ++ r.2.text = xs ++ us := by
  obtain ⟨m, hm⟩ := hshows
  obtain ⟨time, htime, htext⟩ := ofString_written hm hxs
  obtain ⟨v, hv, hvlen, hbuf⟩ := Fmt.ofFormat_ok buf hlen
  obtain ⟨micro, hmicro, htext'⟩ := ofString_written hbuf hus
  rw [h17] at htime
  rw [usTexts, hv, nested_ok, ok_bind, check_bind hvlen, htime, ok_bind, hmicro, ok_bind]
  exact ⟨_, rfl, by rw [htext, htext']⟩

/-- Before its first statement a thread has no text of 17 characters. -/
theorem usTexts_zero (hlen : us.length < 32) :
    usTexts TimeCache.zero buf us us.length = .error .strlen := by
  obtain ⟨v, hv, hvlen, -⟩ := Fmt.ofFormat_ok buf hlen
  rw [usTexts, hv, nested_ok, ok_bind, check_bind hvlen]
  rfl

variable {micros : Int}

/-- The microseconds and what stands behind them, of which `len` is the length. -/
theorem micro_printable (h₀ : 0 ≤ micros) (h₁ : micros < 1000000) (last : List UInt8)
    (len : Nat) (hlast : Printable last) (hlen : last.length + 7 = len) :
    Printable (text "." ++ padZero 6 micros ++ last) ∧
      (text "." ++ padZero 6 micros ++ last).length = len := by
  have hdot : Printable (text ".") := by decide
  have hpad : (padZero 6 micros).length = 6 := length_padZero (by decide) h₀ h₁
  have htext : (text ".").length = 1 := rfl
  refine ⟨(hdot.append (printable_padZero 6 micros)).append hlast, ?_⟩
  rw [List.length_append, List.length_append, hpad, htext]
  omega

theorem microText_eq (zone : Option Data) (h₀ : 0 ≤ micros) (h₁ : micros < 1000000) :
    Printable (microText zone micros) ∧ (microText zone micros).length < 32 ∧
      ∀ cache buf, timeTexts cache zone buf micros
        = usTexts cache buf (microText zone micros) (microText zone micros).length := by
  cases zone with
  | none =>
      obtain ⟨hprint, hlen⟩ := micro_printable h₀ h₁ (text "Z ") 9 (by decide) rfl
      have hlen' : (microText none micros).length = 9 := hlen
      refine ⟨hprint, by omega, fun cache buf => ?_⟩
      rw [hlen']
      rfl
  | some data =>
      obtain ⟨hprint, hlen⟩ := micro_printable h₀ h₁ (text " ") 8 (by decide) rfl
      have hlen' : (microText (some data) micros).length = 8 := hlen
      refine ⟨hprint, by omega, fun cache buf => ?_⟩
      rw [hlen']
      rfl

theorem rewrite_ok (cache : TimeCache) (h : brokenDown zone seconds = .ok tm)
    (h17 : (timeText tm).length = 17) :
    ∃ c, cache.rewrite zone seconds = .ok c ∧ c.lastSecond = seconds ∧ c.Shows (timeText tm) := by
  have htake : (timeText tm).take (64 - 1) = timeText tm := List.take_of_length_le (by omega)
  obtain ⟨m, hm⟩ := cache.time.exists_write 0 (timeText tm ++ [0])
    (by rw [List.length_append, List.length_singleton]; omega)
  rw [TimeCache.rewrite, h, ok_bind, snprintf, htake, hm]
  simp only [ok_bind, pure_eq_ok, nested_ok, check_bind h17]
  exact ⟨_, rfl, rfl, cache.time, hm⟩

theorem rewrite_error (h : brokenDown zone seconds = .ok tm) (h17 : (timeText tm).length ≠ 17) :
    cache.rewrite zone seconds = .error .timeLength := by
  obtain ⟨m, hm⟩ := cache.time.exists_write 0 ((timeText tm).take (64 - 1) ++ [0])
    (by rw [List.length_append, List.length_take, List.length_singleton]; omega)
  rw [TimeCache.rewrite, h, ok_bind, snprintf, hm]
  simp only [ok_bind, pure_eq_ok, nested_ok, check_error h17]
  rfl

theorem rewrite_fault {e : LogFault} (h : brokenDown zone seconds = .error e) :
    cache.rewrite zone seconds = .error e := by
  rw [TimeCache.rewrite, h]
  rfl

/-- A text that is kept is written again. -/
theorem timeTexts_shows (zone : Option Data) (buf : Memory UInt8 32) (h₀ : 0 ≤ micros)
    (h₁ : micros < 1000000) (hshows : cache.Shows (timeText tm))
    (h17 : (timeText tm).length = 17) : ∃ r, timeTexts cache zone buf micros = .ok r ∧
      r.1.text ++ r.2.text = timeText tm ++ microText zone micros := by
  obtain ⟨hprint, hlen, heq⟩ := microText_eq zone h₀ h₁
  rw [heq]
  exact usTexts_eq hshows (printable_timeText tm) h17 hprint hlen

theorem microseconds_range (micros : Nat) :
    0 ≤ (micros : Int).tmod kMicroSecondsPerSecond ∧
      (micros : Int).tmod kMicroSecondsPerSecond < 1000000 := by
  rw [kMicroSecondsPerSecond, Int.tmod_eq_emod_of_nonneg (Int.natCast_nonneg micros)]
  omega

/-- Without the cache, each record has its own time. -/
theorem formatTimeAnew_eq (cache : TimeCache) (zone : Option Data) (buf : Memory UInt8 32)
    (micros : Nat) : written (formatTimeAnew cache zone buf micros) = timeStamp zone micros := by
  obtain ⟨h₀, h₁⟩ := microseconds_range micros
  rw [formatTimeAnew, timeStamp]
  cases hb : brokenDown zone ((micros : Int).tdiv kMicroSecondsPerSecond) with
  | error e =>
      rw [rewrite_fault hb]
      rfl
  | ok tm =>
      rw [ok_bind]
      by_cases h17 : (timeText tm).length = 17
      · obtain ⟨c, hc, -, hshows⟩ := rewrite_ok cache hb h17
        obtain ⟨r, hr, htext⟩ := timeTexts_shows zone buf h₀ h₁ hshows h17
        rw [check_bind h17]
        simp only [hc, ok_bind, hr, pure_eq_ok, written, Except.map, htext]
      · rw [rewrite_error hb h17, check_error h17]
        rfl

/-- The lengths that `formatTime` asserts. -/
theorem formatTime_len {c : TimeCache} {time us : T} {t : Int}
    (h : formatTime cache zone buf t = .ok (c, time, us)) : time.len = 17 ∧ us.len ≤ 9 := by
  obtain ⟨c', hr⟩ : ∃ c', timeTexts c' zone buf (t.tmod kMicroSecondsPerSecond)
      = .ok (time, us) := by
    rw [formatTime] at h
    split at h
    · obtain ⟨c', -, h⟩ := bind_eq_ok.mp h
      obtain ⟨r, hr, h⟩ := bind_eq_ok.mp h
      cases h
      exact ⟨_, hr⟩
    · rw [pure_eq_ok, ok_bind] at h
      obtain ⟨r, hr, h⟩ := bind_eq_ok.mp h
      cases h
      exact ⟨_, hr⟩
  have hlen : ∀ chars len, usTexts c' buf chars len = Except.ok (time, us) →
      time.len = 17 ∧ us.len = len := by
    intro chars len h
    rw [usTexts] at h
    obtain ⟨v, -, h⟩ := bind_eq_ok.mp h
    obtain ⟨-, -, h⟩ := bind_eq_ok.mp h
    obtain ⟨time', htime, h⟩ := bind_eq_ok.mp h
    obtain ⟨us', hus, h⟩ := bind_eq_ok.mp h
    cases h
    exact ⟨T.ofString_len htime, T.ofString_len hus⟩
  rw [timeTexts] at hr
  split at hr
  · obtain ⟨htime, hus⟩ := hlen _ _ hr
    exact ⟨htime, by omega⟩
  · obtain ⟨htime, hus⟩ := hlen _ _ hr
    exact ⟨htime, by omega⟩

namespace LogTimes

/-- The text of a thread is that of its last second, in the zone in which it was written. -/
def Kept (cache : TimeCache) : Option (Option Data) → Prop
  | none => cache = TimeCache.zero
  | some zone => ∃ tm, brokenDown zone cache.lastSecond = .ok tm ∧ (timeText tm).length = 17 ∧
      cache.Shows (timeText tm)

variable {rendered : Option (Option Data)} {t : Nat}

theorem formatTime_other (h : second t ≠ cache.lastSecond) :
    formatTime cache zone buf t = formatTimeAnew cache zone buf t := by
  rw [formatTime, formatTimeAnew]
  simp only [second] at h
  simp only [if_pos h]

theorem formatTime_same (h : second t = cache.lastSecond) :
    formatTime cache zone buf t
      = (timeTexts cache zone buf ((t : Int).tmod kMicroSecondsPerSecond)).map
        fun r => (cache, r) := by
  rw [formatTime]
  simp only [second] at h
  simp only [h, ne_eq, not_true_eq_false, if_false, pure_eq_ok, ok_bind]
  rfl

/-- The text that a statement leaves. -/
theorem Kept.formatTime (h : Kept cache rendered) {c : TimeCache} {r : T × T}
    (hf : Base.formatTime cache zone buf t = .ok (c, r)) :
    Kept c (if second t ≠ cache.lastSecond then some zone else rendered) := by
  by_cases hs : second t ≠ cache.lastSecond
  · rw [formatTime_other hs, formatTimeAnew] at hf
    obtain ⟨c', hc', hf⟩ := bind_eq_ok.mp hf
    obtain ⟨r', -, hf⟩ := bind_eq_ok.mp hf
    cases hf
    rw [if_pos hs]
    cases hb : brokenDown zone ((t : Int).tdiv kMicroSecondsPerSecond) with
    | error e =>
        rw [rewrite_fault hb] at hc'
        cases hc'
    | ok tm =>
        by_cases h17 : (timeText tm).length = 17
        · obtain ⟨c', heq, hlast, hshows⟩ := rewrite_ok cache hb h17
          rw [heq] at hc'
          cases hc'
          exact ⟨tm, by rw [hlast]; exact hb, h17, hshows⟩
        · rw [rewrite_error hb h17] at hc'
          cases hc'
  · rw [formatTime_same (not_not.mp hs)] at hf
    obtain ⟨r', -, hr⟩ := map_eq_ok.mp hf
    cases hr
    rw [if_neg hs]
    exact h

/-- The text that is kept is right for the zone if the offsets are the same. -/
theorem timeStamp_eq_iff {tm : Tm} {zone' : Option Data}
    (hb : brokenDown zone' (second t) = .ok tm) (h17 : (timeText tm).length = 17) :
    timeStamp zone t
        = .ok (timeText tm ++ microText zone ((t : Int).tmod kMicroSecondsPerSecond)) ↔
      utcOffset zone' (second t) = utcOffset zone (second t) := by
  rw [timeStamp, utcOffset, utcOffset, hb]
  change (do let tm ← brokenDown zone (second t)
             check ((timeText tm).length = 17) LogFault.timeLength
             return timeText tm ++ microText zone _) = _ ↔ _
  cases hb' : brokenDown zone (second t) with
  | error e => exact ⟨(nomatch ·), (nomatch ·)⟩
  | ok tm' =>
      have hiff := timeText_eq_iff hb hb'
      rw [ok_bind]
      constructor
      · intro h
        obtain ⟨u, hcheck, h⟩ := bind_eq_ok.mp h
        rw [pure_eq_ok, Except.ok.injEq] at h
        have htext := List.append_cancel_right h
        rw [Except.map, Except.map, hiff.mp htext.symm]
      · intro h
        rw [Except.map, Except.map, Except.ok.injEq] at h
        rw [← hiff.mpr h, check_bind h17]
        rfl

/-- A rendering fails in the tables of the zone or by the length of its year. -/
theorem timeStamp_ne_strlen : timeStamp zone micros ≠ .error .strlen := by
  rw [timeStamp]
  intro h
  rcases bind_eq_error.mp h with hb | ⟨tm, -, h⟩
  -- no assertion of the zone is one of the lengths
  · cases zone with
    | none => cases hb
    | some data =>
        obtain ⟨e, -, he⟩ := nested_eq_error.mp hb
        cases he
  · rcases bind_eq_error.mp h with hcheck | ⟨-, -, h⟩
    · rw [check] at hcheck
      split at hcheck
      · cases hcheck
      · cases hcheck
    · cases h

/-- When a statement gets the time it is to have. -/
theorem Kept.agrees_iff (h : Kept cache rendered) (buf : Memory UInt8 32) :
    written (Base.formatTime cache zone buf t) = timeStamp zone t ↔
      second t ≠ cache.lastSecond ∨
        ∃ z, rendered = some z ∧ utcOffset z (second t) = utcOffset zone (second t) := by
  obtain ⟨h₀, h₁⟩ := microseconds_range t
  by_cases hs : second t ≠ cache.lastSecond
  · rw [formatTime_other hs, formatTimeAnew_eq]
    exact iff_of_true rfl (Or.inl hs)
  · rw [formatTime_same (not_not.mp hs)]
    cases rendered with
    | none =>
        have hzero : cache = TimeCache.zero := h
        obtain ⟨hprint, hlen, heq⟩ := microText_eq zone h₀ h₁
        rw [heq, hzero, usTexts_zero hlen]
        refine iff_of_false (fun h => timeStamp_ne_strlen h.symm) ?_
        rintro (hne | ⟨z, hz, -⟩)
        · exact hs (hzero ▸ hne)
        · cases hz
    | some zone' =>
        obtain ⟨tm, hb, h17, hshows⟩ := h
        obtain ⟨r, hr, htext⟩ := timeTexts_shows zone buf h₀ h₁ hshows h17
        rw [← not_not.mp hs] at hb
        rw [hr, written, Except.map, Except.map, htext, eq_comm, timeStamp_eq_iff hb h17]
        simp [hs]

/-! ## Every run -/

variable {Thread : Type} [DecidableEq Thread] {s s' : LogTimes Thread} {th : Thread}

/-- The threads keep the texts of their last seconds, and the records are right. -/
structure Inv (s : LogTimes Thread) : Prop where
  kept : ∀ th, Kept (s.cache th) (s.rendered th)
  right : s.Right

omit [DecidableEq Thread] in
theorem inv_start (h : Start s) : Inv s where
  kept th := by
    rw [h.rendered, h.cache]
    rfl
  right r hr := by
    rw [h.records] at hr
    cases hr

theorem inv_log (h : Inv s) (hf : Fresh s (.log th buf t)) (hl : s.log th buf t = .ok s') :
    Inv s' := by
  rw [log] at hl
  obtain ⟨⟨c, time, us⟩, hformat, hl⟩ := bind_eq_ok.mp hl
  cases hl
  constructor
  · intro th'
    have hrendered : (if second t ≠ (s.cache th).lastSecond then
          Function.update s.rendered th (some s.zone) else s.rendered)
        = Function.update s.rendered th
          (if second t ≠ (s.cache th).lastSecond then some s.zone else s.rendered th) := by
      split
      · rfl
      · exact (Function.update_eq_self th s.rendered).symm
    by_cases heq : th' = th
    · subst heq
      simp only [hrendered, Function.update_self]
      exact (h.kept th').formatTime hformat
    · simp only [hrendered, Function.update_of_ne heq]
      exact h.kept th'
  · intro r hr
    rcases List.mem_append.mp hr with hr | hr
    · exact h.right r hr
    · have hagrees := ((h.kept th).agrees_iff buf).mpr hf
      rw [hformat] at hagrees
      rw [List.mem_singleton.mp hr]
      exact hagrees.symm

theorem inv_next {a : Action Thread} (h : Inv s) (hf : Fresh s a)
    (hn : (runs Thread).Next s a s') : Inv s' := by
  cases a with
  | setTimeZone tz =>
      cases hn
      exact { h with }
  | log th buf t => exact inv_log h hf (Option.some.inj hn)

/-- In every run whose log statements are fresh, every record has its own time in the zone that
was in force; and the next statement writes the time that it is to write, as it would without
the cache, if and only if it is fresh too. -/
theorem log_time_right_iff (h : (runs Thread).Reachable Fresh s) :
    s.Right ∧ ∀ (th : Thread) (buf : Memory UInt8 32) (t : Nat),
      written (formatTimeAnew (s.cache th) s.zone buf t) = timeStamp s.zone t ∧
      (written (formatTime (s.cache th) s.zone buf t) = timeStamp s.zone t ↔
        Fresh s (.log th buf t)) := by
  have hinv : Inv s :=
    h.invariant (fun _ hs => inv_start hs) fun _ _ _ hs hf hn => inv_next hs hf hn
  refine ⟨hinv.right, fun th buf t => ⟨formatTimeAnew_eq _ _ buf t, ?_⟩⟩
  exact (hinv.kept th).agrees_iff buf

/-- The start of a program with a thread. -/
def sampleStart : LogTimes Unit where
  zone := none
  cache _ := TimeCache.zero
  rendered _ := none
  records := []

theorem sampleStart_start : Start sampleStart := ⟨rfl, fun _ => rfl, fun _ => rfl, rfl⟩

def sampleBuf : Memory UInt8 32 := ⟨List.replicate 32 0, rfl⟩

/-- `TimeZone beijing(8*3600, "CST")` -/
def beijing : Data where
  transitions := []
  localtimes := [⟨28800, false, 0⟩]
  abbreviation := text "CST"

/-- The last second of a year, and after the change of the zone the first of the next. -/
def sampleRun : List (Action Unit) :=
  [.log () sampleBuf 1640995199999999, .setTimeZone (some beijing),
    .log () sampleBuf 1640995200000000]

theorem log_time_right_sample : ∃ s, (runs Unit).Run Fresh sampleStart sampleRun s ∧ s.Right ∧
    s.records.map Prod.fst
      = [text "20211231 23:59:59.999999Z ", text "20220101 08:00:00.000000 "] := by
  have hrun : (runs Unit).Run Fresh sampleStart sampleRun _ :=
    System.Run.cons (Or.inl (by decide)) (by rfl) (System.Run.cons trivial (by rfl)
      (System.Run.single (Or.inl (by decide)) (by rfl)))
  exact ⟨_, hrun, (log_time_right_iff ⟨_, _, sampleStart_start, hrun⟩).1, by rfl⟩

/-- A thread logs, the zone is changed, and in the same second it logs again: the record has the
time of UTC without its `Z`. -/
theorem stale_time : ¬ ∀ s : LogTimes Unit, (runs Unit).Reachable System.always s → s.Right := by
  intro hall
  have hrun := System.run_of_exec (by rfl : (runs Unit).exec sampleStart
    [.log () sampleBuf 1640995199999998, .setTimeZone (some beijing),
      .log () sampleBuf 1640995199999999] = some (.ok _))
  have hright := hall _ ⟨_, _, sampleStart_start, hrun⟩
  have hwrong : ¬ (Except.ok (text "20220101 07:59:59.999999 ") : Except LogFault (List UInt8))
      = .ok (text "20211231 23:59:59.999999 ") := by
    rw [Except.ok.injEq]
    decide
  exact hwrong (hright (text "20211231 23:59:59.999999 ", .ok (text "20220101 07:59:59.999999 "))
    (List.mem_cons_of_mem _ List.mem_cons_self))

end LogTimes

end Zing.Base
