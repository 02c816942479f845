import Zing.Base.LogFileNames
import Zing.Base.Logging

set_option autoImplicit false

/-! # From log statements to log files

The threads of a program log through `g_output` into one `LogFile` with a mutex. A statement
first makes its record in the buffer of its thread, and hands it out when the `Logger` is
destructed; in between the other threads go on. The functions are those of `Logging` and
`LogFile`; what a function that is set with `setOutput` does with a record is to call
`LogFile::append`.

`log_read_back` says that whoever reads the files in the order of their names and splits what
is in them into lines gets the records, none torn, lost or doubled.
-/

namespace Zing.Base

open Lib Detail FileUtil

namespace LogPipeline

open Logger (Env Constructor Statement Output)

/-! ## Statements -/

/-- The macros. -/
inductive Macro
  | LOG_TRACE
  | LOG_DEBUG
  | LOG_INFO
  | LOG_WARN
  | LOG_ERROR
  | LOG_FATAL
  | LOG_SYSERR
  | LOG_SYSFATAL
  deriving DecidableEq, Repr

/-- The value of the enumerator. -/
def levelValue : LogLevel → Nat
  | .TRACE => 0
  | .DEBUG => 1
  | .INFO => 2
  | .WARN => 3
  | .ERROR => 4
  | .FATAL => 5

/-- The condition in front of the statement. -/
def Macro.enabled (logLevel : LogLevel) : Macro → Bool
  | .LOG_TRACE => decide (levelValue logLevel ≤ levelValue .TRACE)
  | .LOG_DEBUG => decide (levelValue logLevel ≤ levelValue .DEBUG)
  | .LOG_INFO => decide (levelValue logLevel ≤ levelValue .INFO)
  | _ => true

/-- The constructor of the `Logger`, in the function `func` and with this `errno`. -/
def Macro.constructor (func : Option CString) (errno : Int32) : Macro → Constructor
  | .LOG_TRACE => .func .TRACE func
  | .LOG_DEBUG => .func .DEBUG func
  | .LOG_INFO => .file
  | .LOG_WARN => .level .WARN
  | .LOG_ERROR => .level .ERROR
  | .LOG_FATAL => .level .FATAL
  | .LOG_SYSERR => .toAbort false errno
  | .LOG_SYSFATAL => .toAbort true errno

/-- A log statement in the source, with what it finds when it is executed. -/
structure Call where
  name : Macro
  func : Option CString
  errno : Int32
  file : SourceFile
  line : Int32
  micros : Nat
  pieces : List Piece
  env : Env

def Call.statement (c : Call) : Statement where
  constructor := c.name.constructor c.func c.errno
  file := c.file
  line := c.line
  micros := c.micros
  pieces := c.pieces

/-! ## The program -/

inductive Fault
  | log (e : LogFault)
  | file (e : LogFile.Fault)
  /-- A pointer and a length that are not those of a block. -/
  | argument
  deriving DecidableEq, Repr

structure Program (T : Type) where
  /-- `g_logLevel` -/
  logLevel : LogLevel
  /-- `g_logTimeZone` -/
  zone : Option Data
  cache : T → TimeCache
  /-- What the statement of a thread is going to hand to `g_output`. -/
  record : T → Option Output
  file : LogFile.World
  aborted : Bool

inductive Action (T : Type)
  | setLogLevel (level : LogLevel)
  | setTimeZone (tz : Option Data)
  /-- A statement, up to `g_output` in the destructor of its `Logger`. -/
  | log (th : T) (call : Call)
  /-- The call of `g_output`, and what comes behind it. -/
  | output (th : T) (results : List Fwrite) (clock now : Int) (r : LogFile.Reading)
  | rollFile (r : LogFile.Reading)

/-- The bytes of a record. -/
def recordBytes (out : Output) : List UInt8 := out.msg.bytes.getD []

/-- What `g_output` gets is a line. -/
def lineOf (msg : StringPiece) : Except Fault LogFile.Line :=
  if h : 0 ≤ msg.length ∧ Fits 32 msg.length ∧ msg.length ≤ msg.ptr.length then
    .ok ⟨msg.ptr, msg.length, h.1, h.2.1, h.2.2⟩
  else .error .argument

variable {T : Type}

/-- What a statement finds: the zone of the program, and the text that its thread keeps. -/
def Program.env (s : Program T) (th : T) (call : Call) : Env :=
  { call.env with zone := s.zone, cache := s.cache th }

variable [DecidableEq T] (strerror_tl : Int → List UInt8)

def Program.log (s : Program T) (th : T) (call : Call) : Except Fault (Program T) := do
  if call.name.enabled s.logLevel then
    let (cache, out) ← nested .log (Logger.log (s.env th call) call.statement)
    return { s with
      cache := Function.update s.cache th cache
      record := Function.update s.record th (some out) }
  else return s

/-- `none` if `append` does not return. -/
def Program.output (s : Program T) (th : T) (out : Output) (results : List Fwrite)
    (clock now : Int) (r : LogFile.Reading) : Option (Except Fault (Program T)) :=
  match lineOf out.msg with
  | .error e => some (.error e)
  | .ok line =>
      (LogFile.step strerror_tl s.file (.append line results clock now r)).map fun result =>
        (nested .file result).map fun file =>
          { s with
            file := file
            record := Function.update s.record th none
            aborted := out.abort }

def Program.act (s : Program T) : Action T → Option (Except Fault (Program T))
  | .setLogLevel level => some (.ok { s with logLevel := level })
  | .setTimeZone tz => some (.ok { s with zone := tz })
  | .log th call => if s.record th = none then some (s.log th call) else none
  | .output th results clock now r =>
      (s.record th).bind fun out => s.output strerror_tl th out results clock now r
  | .rollFile r =>
      (LogFile.step strerror_tl s.file (.rollFile r)).map fun result =>
        (nested .file result).map fun file => { s with file := file }

/-- Nothing happens behind `abort()`. -/
def step (s : Program T) (a : Action T) : Option (Except Fault (Program T)) :=
  if s.aborted = false then s.act strerror_tl a else none

/-- A program in which nothing has been logged, with a log file that has just been constructed. -/
structure Start (c : LogFile.Config) (s : Program T) : Prop where
  zone : s.zone = none
  cache : ∀ th, s.cache th = TimeCache.zero
  record : ∀ th, s.record th = none
  file : ∃ r, LogFile.IsTime r.now ∧ LogFile.new c r = .ok s.file.log ∧ s.file.clock = r.now
  running : s.aborted = false

def runs (c : LogFile.Config) : System (Program T) (Action T) Fault where
  init := Start c
  step := step strerror_tl

/-- What is seen of a step: the record that a statement makes, or the one that `g_output` is
called with. -/
inductive Event (T : Type)
  | made (th : T) (record : List UInt8)
  | handed (th : T) (record : List UInt8)

omit [DecidableEq T] in
def observe (s : Program T) : Action T → List (Event T)
  | .log th call =>
      if call.name.enabled s.logLevel then
        match Logger.log (s.env th call) call.statement with
        | .ok (_, out) => [.made th (recordBytes out)]
        | .error _ => []
      else []
  | .output th _ _ _ _ => ((s.record th).map fun out => Event.handed th (recordBytes out)).toList
  | .setLogLevel _ | .setTimeZone _ | .rollFile _ => []

/-- The records of all statements. -/
def made (log : List (Event T)) : List (T × List UInt8) :=
  log.filterMap fun
    | .made th record => some (th, record)
    | .handed .. => none

/-- The records that `g_output` has got. -/
def handed (log : List (Event T)) : List (T × List UInt8) :=
  log.filterMap fun
    | .made .. => none
    | .handed th record => some (th, record)

/-- The message of a statement leaves room for the end of its line, and nothing in it brings a
newline; writes succeed, and the clock is positive. -/
def Good (s : Program T) : Action T → Prop
  | .setLogLevel _ | .setTimeZone _ => True
  | .log th call =>
      let env := s.env th call
      (∀ d, (env.doubles.g12 d).length < LogStream.kMaxNumericSize) ∧
        (∀ p ∈ call.statement.streamed env, 10 ∉ p.rendered env.doubles) ∧
          10 ∉ call.file.data.chars ∧
            ∀ cache time us, formatTime env.cache env.zone env.us call.micros =
              .ok (cache, time, us) → Logger.LeavesLine env
                (Logger.header env call.statement.constructor.logLevel time us) call.statement
  | .output _ results clock now r =>
      AppendFile.NoError results ∧ LogFile.IsTime clock ∧ LogFile.IsTime now ∧
        LogFile.IsTime r.now
  | .rollFile r => LogFile.IsTime r.now

/-- The records of one thread. -/
def ofThread (th : T) (records : List (T × List UInt8)) : List (List UInt8) :=
  (records.filter fun p => decide (p.1 = th)).map Prod.snd

/-- Some text, and a newline behind it. -/
def IsLine (record : List UInt8) : Prop := ∃ text, record = text ++ [10] ∧ 10 ∉ text

/-! ## One record -/

variable {cache cache' : TimeCache} {zone : Option Data} {buf : Memory UInt8 32} {env : Env}
  {stmt : Statement} {out : Output}

/-- The texts of the time are printable. -/
theorem printable_texts {rendered : Option (Option Data)} {t : Nat} {time us : Base.T}
    (hkept : LogTimes.Kept cache rendered)
    (hformat : formatTime cache zone buf t = .ok (cache', time, us)) :
    Printable time.text ∧ Printable us.text := by
  obtain ⟨h₀, h₁⟩ := microseconds_range t
  have hkept' := hkept.formatTime hformat
  have htexts : timeTexts cache' zone buf ((t : Int).tmod kMicroSecondsPerSecond) =
      .ok (time, us) := by
    rw [formatTime] at hformat
    split at hformat
    · obtain ⟨c, -, hrest⟩ := bind_eq_ok.mp hformat
      obtain ⟨r, hr, heq⟩ := bind_eq_ok.mp hrest
      cases heq
      exact hr
    · obtain ⟨c, -, hrest⟩ := bind_eq_ok.mp hformat
      obtain ⟨r, hr, heq⟩ := bind_eq_ok.mp hrest
      cases heq
      exact hr
  obtain ⟨hprint, hlen, heq⟩ := microText_eq zone h₀ h₁
  cases hrendered : (if LogTimes.second t ≠ cache.lastSecond then some zone else rendered) with
  | none =>
      rw [hrendered] at hkept'
      have hzero : cache' = TimeCache.zero := hkept'
      rw [hzero, heq, usTexts_zero hlen] at htexts
      cases htexts
  | some zone' =>
      rw [hrendered] at hkept'
      obtain ⟨tm, -, h17, hshows⟩ := hkept'
      obtain ⟨r, hr, htext⟩ := timeTexts_shows zone buf h₀ h₁ hshows h17
      rw [htexts, Except.ok.injEq] at hr
      subst hr
      have hall : Printable (time.text ++ us.text) := by
        rw [htext]
        exact (printable_timeText tm).append hprint
      exact ⟨fun c hc => hall c (List.mem_append_left _ hc),
        fun c hc => hall c (List.mem_append_right _ hc)⟩

/-- A header has no newline. -/
theorem newline_notMem_header {time us : Base.T} (htime : Printable time.text)
    (hus : Printable us.text) (level : LogLevel) : 10 ∉ Logger.header env level time us :=
  Printable.not_mem (((htime.append hus).append (Logger.tidString_spec env.tid).1).append
    (Logger.levelName_spec level).1) (by decide)

/-- The trailer without its newline. -/
def trailerText (file : SourceFile) (line : Int32) : List Piece :=
  (Logger.trailer file line).dropLast

theorem trailer_eq (file : SourceFile) (line : Int32) :
    Logger.trailer file line = trailerText file line ++ [.char 10] := rfl

theorem newline_notMem_trailerText (f : Doubles) {file : SourceFile} (line : Int32)
    (hfile : 10 ∉ file.data.chars) : ∀ p ∈ trailerText file line, 10 ∉ p.rendered f := by
  intro p hp
  rw [trailerText, Logger.trailer] at hp
  simp only [List.dropLast, List.mem_cons, List.not_mem_nil, or_false] at hp
  rcases hp with rfl | rfl | rfl | rfl
  · show (10 : UInt8) ∉ text " - "
    decide
  · exact fun hmem => hfile (List.mem_of_mem_take hmem)
  · show (10 : UInt8) ∉ [58]
    decide
  · exact (printable_decimal _).not_mem (by decide)

/-- A record with room for the end of its trailer is a line. -/
theorem isLine_record {header : List UInt8}
    (hf : ∀ d, (env.doubles.g12 d).length < LogStream.kMaxNumericSize)
    (hheader : 10 ∉ header) (hsize : header.length + 1 < kSmallBuffer)
    (hline : ∀ p ∈ stmt.streamed env, 10 ∉ p.rendered env.doubles)
    (hfile : 10 ∉ stmt.file.data.chars) (hleaves : Logger.LeavesLine env header stmt) :
    IsLine ((stmt.streamed env ++ Logger.trailer stmt.file stmt.line).foldl
      (Logger.append env.doubles) header) := by
  have hlast := (Logger.getLast_record_iff hf hsize hline).mpr hleaves
  have hbody : ∀ p ∈ stmt.streamed env ++ trailerText stmt.file stmt.line,
      10 ∉ p.rendered env.doubles := by
    intro p hp
    rcases List.mem_append.mp hp with hp | hp
    · exact hline p hp
    · exact newline_notMem_trailerText env.doubles stmt.line hfile p hp
  obtain ⟨rest, hrest, hnot⟩ := Logger.foldl_append_eq header hbody
  have hclean : 10 ∉ header ++ rest := by
    rw [List.mem_append]
    rintro (h | h)
    · exact hheader h
    · exact hnot h
  rw [trailer_eq, ← List.append_assoc, List.foldl_append, hrest] at hlast ⊢
  -- the newline comes last, and it was not dropped, since the record would not end with it
  have hnewline : [Piece.char 10].foldl (Logger.append env.doubles) (header ++ rest) =
      Logger.append env.doubles (header ++ rest) (.char 10) := rfl
  rw [hnewline] at hlast ⊢
  by_cases hroom : (Piece.char 10).room ≤ kSmallBuffer - (header ++ rest).length
  · rw [Logger.append_of_room hroom]
    exact ⟨header ++ rest, rfl, hclean⟩
  · rw [Logger.append_of_not_room hroom] at hlast
    exact absurd (List.mem_of_getLast? hlast) hclean

/-- A pointer and a length that `LogFile::append` can be called with. -/
def IsArgument (msg : StringPiece) : Prop :=
  0 ≤ msg.length ∧ Fits 32 msg.length ∧ msg.length ≤ msg.ptr.length

theorem isArgument_toStringPiece (b : FixedBuffer kSmallBuffer) : IsArgument b.toStringPiece := by
  obtain ⟨⟨hfits, hle⟩, hsize⟩ := LogStream.readable_toStringPiece b
  refine ⟨?_, hfits, hle⟩
  have hcur : b.cur ≤ 4000 := b.cur_le
  have hlength : b.toStringPiece.length = b.cur := by
    simp only [FixedBuffer.toStringPiece, FixedBuffer.length]
    exact narrow_eq (by decide) (fits_32.mpr (by omega))
  omega

/-- What a statement that meets the condition makes: a line, which can be handed out. -/
theorem log_isLine {rendered : Option (Option Data)} (hkept : LogTimes.Kept env.cache rendered)
    (hf : ∀ d, (env.doubles.g12 d).length < LogStream.kMaxNumericSize)
    (hline : ∀ p ∈ stmt.streamed env, 10 ∉ p.rendered env.doubles)
    (hfile : 10 ∉ stmt.file.data.chars)
    (hleaves : ∀ c time us, formatTime env.cache env.zone env.us stmt.micros = .ok (c, time, us) →
      Logger.LeavesLine env (Logger.header env stmt.constructor.logLevel time us) stmt)
    (hlog : Logger.log env stmt = .ok (cache', out)) :
    (∃ rendered', LogTimes.Kept cache' rendered') ∧ IsLine (recordBytes out) ∧
      IsArgument out.msg := by
  obtain ⟨⟨c, stream⟩, himpl, hrest⟩ := bind_eq_ok.mp hlog
  obtain ⟨⟨c', time, us⟩, hformat, -⟩ := bind_eq_ok.mp himpl
  obtain ⟨htime, hus⟩ := printable_texts hkept hformat
  obtain ⟨htimeLen, husLen⟩ := formatTime_len hformat
  have hheader := Logger.header_length_le env stmt.constructor.logLevel htimeLen husLen
  obtain ⟨out', hlog', hbytes⟩ := Logger.log_spec stmt hf hformat
  rw [hlog, Except.ok.injEq, Prod.mk.injEq] at hlog'
  obtain ⟨rfl, rfl⟩ := hlog'
  refine ⟨⟨_, hkept.formatTime hformat⟩, ?_, ?_⟩
  · rw [recordBytes, hbytes, Option.getD_some]
    refine isLine_record hf (newline_notMem_header htime hus _) ?_ hline hfile
      (hleaves _ _ _ hformat)
    exact Nat.lt_of_le_of_lt (Nat.succ_le_succ hheader) (by decide)
  · obtain ⟨stream₁, -, hrest⟩ := bind_eq_ok.mp hrest
    obtain ⟨stream₂, -, hrest⟩ := bind_eq_ok.mp hrest
    obtain ⟨stream₃, -, hrest⟩ := bind_eq_ok.mp hrest
    cases hrest
    exact isArgument_toStringPiece _

/-! ## What every step preserves -/

/-- What `g_output` is handed is a line of `LogFile`. -/
theorem lineOf_eq {msg : StringPiece} (h : IsArgument msg) :
    ∃ line, lineOf msg = .ok line ∧ line.bytes = msg.bytes.getD [] := by
  refine ⟨_, dif_pos h, ?_⟩
  have hlen := LogFile.Line.toUnsigned_len ⟨msg.ptr, msg.length, h.1, h.2.1, h.2.2⟩
  have hsize : msg.sizeT = msg.length.toNat := hlen
  have hle : msg.length.toNat ≤ msg.ptr.length := by
    have := h.2.2
    omega
  rw [StringPiece.bytes, hsize, if_pos hle]
  rfl

/-- The files have what was handed out, and a thread has handed out what it has made, but for
the record that it still has. -/
structure Inv (c : LogFile.Config) (s : Program T × List (Event T)) : Prop where
  file : LogFile.Inv c s.1.file.log
  order : LogFile.InOrder s.1.file.log.files ((handed s.2).map Prod.snd)
  cache : ∀ th, ∃ rendered, LogTimes.Kept (s.1.cache th) rendered
  account : ∀ th, ofThread th (handed s.2) ++ ((s.1.record th).map recordBytes).toList =
    ofThread th (made s.2)
  lines : ∀ p ∈ made s.2, IsLine p.2
  argument : ∀ th out, s.1.record th = some out → IsArgument out.msg

variable {c : LogFile.Config} {s u : Program T} {events : List (Event T)} {a : Action T} {th : T}
  {call : Call}

omit [DecidableEq T] in
theorem inv_start [DecidableEq T] (h : Start c s) : Inv c (s, []) where
  file := by
    obtain ⟨r, hr, hnew, -⟩ := h.file
    exact LogFile.inv_new hr hnew
  order := by
    obtain ⟨r, hr, hnew, hclock⟩ := h.file
    have hinit : ((LogFile.runs (fun _ => []) c).logged LogFile.observe).init (s.file, []) :=
      ⟨⟨r, hr, hnew, hclock⟩, rfl⟩
    exact (LogFile.kept_init hinit).1.order
  cache := fun th => ⟨none, h.cache th⟩
  account := by
    intro th
    rw [h.record]
    rfl
  lines := fun p hp => nomatch hp
  argument := by
    intro th out hout
    rw [h.record] at hout
    cases hout

theorem ofThread_snoc (th th' : T) (records : List (T × List UInt8)) (record : List UInt8) :
    ofThread th (records ++ [(th', record)]) =
      ofThread th records ++ if th' = th then [record] else [] := by
  rw [ofThread, ofThread, List.filter_append, List.map_append]
  by_cases h : th' = th
  · simp [h]
  · simp [h]

omit [DecidableEq T] in
theorem events_made (events : List (Event T)) (th : T) (record : List UInt8) :
    made (events ++ [.made th record]) = made events ++ [(th, record)] ∧
      handed (events ++ [.made th record]) = handed events := by
  simp [made, handed]

omit [DecidableEq T] in
theorem events_handed (events : List (Event T)) (th : T) (record : List UInt8) :
    made (events ++ [.handed th record]) = made events ∧
      handed (events ++ [.handed th record]) = handed events ++ [(th, record)] := by
  simp [made, handed]

theorem Inv.log (h : Inv c (s, events)) (hgood : Good s (.log th call)) (hnone : s.record th = none)
    (hok : s.log th call = .ok u) : Inv c (u, events ++ observe s (.log th call)) := by
  rw [Program.log] at hok
  rw [observe]
  split at hok
  · rename_i henabled
    obtain ⟨⟨cache, out⟩, hnested, hrest⟩ := bind_eq_ok.mp hok
    cases hrest
    have hlog := nested_eq_ok.mp hnested
    obtain ⟨hf, hline, hfile, hleaves⟩ := hgood
    obtain ⟨rendered, hkept⟩ := h.cache th
    obtain ⟨hkept', hrecord, hargument⟩ := log_isLine hkept hf hline hfile hleaves hlog
    obtain ⟨hmade, hhanded⟩ := events_made events th (recordBytes out)
    simp only [henabled, if_true, hlog]
    refine ⟨h.file, ?_, ?_, ?_, ?_, ?_⟩
    · rw [hhanded]
      exact h.order
    · intro th'
      by_cases heq : th' = th
      · subst heq
        simp only [Function.update_self]
        exact hkept'
      · simp only [Function.update_of_ne heq]
        exact h.cache th'
    · intro th'
      rw [hmade, hhanded, ofThread_snoc, ← h.account th']
      by_cases heq : th' = th
      · subst heq
        simp [hnone]
      · simp only [Function.update_of_ne heq]
        rw [if_neg (Ne.symm heq), List.append_nil]
    · intro p hp
      rw [hmade] at hp
      rcases List.mem_append.mp hp with hp | hp
      · exact h.lines p hp
      · rw [List.mem_singleton.mp hp]
        exact hrecord
    · intro th' out' hout
      by_cases heq : th' = th
      · subst heq
        simp only [Function.update_self] at hout
        cases hout
        exact hargument
      · simp only [Function.update_of_ne heq] at hout
        exact h.argument th' out' hout
  · rename_i hdisabled
    cases hok
    rw [if_neg hdisabled, List.append_nil]
    exact h

variable {strerror_tl : Int → List UInt8} {out : Output} {results : List Fwrite} {clock now : Int}
  {r : LogFile.Reading}

/-- `g_output` puts the record into the file. -/
theorem Inv.output (h : Inv c (s, events)) (hgood : Good s (.output th results clock now r))
    (hout : s.record th = some out)
    (hok : s.output strerror_tl th out results clock now r = some (.ok u)) :
    Inv c (u, events ++ observe s (.output th results clock now r)) := by
  obtain ⟨hno, -, -, hr⟩ := hgood
  obtain ⟨line, hline, hbytes⟩ := lineOf_eq (h.argument th out hout)
  rw [Program.output, hline] at hok
  obtain ⟨result, hstep, hresult⟩ := Option.map_eq_some_iff.mp hok
  obtain ⟨w, hw, rfl⟩ := map_eq_ok.mp hresult
  obtain rfl := nested_eq_ok.mp hw
  have hnext : (LogFile.runs strerror_tl c).Next s.file (.append line results clock now r) w :=
    hstep
  obtain ⟨f, out', hf, hfp, rfl⟩ := LogFile.next_append h.file hno hnext
  rw [hbytes] at hfp
  have hobserve : observe s (.output th results clock now r) =
      [.handed th (recordBytes out)] := by
    rw [observe, hout]
    rfl
  obtain ⟨hmade, hhanded⟩ := events_handed events th (recordBytes out)
  rw [hobserve]
  refine ⟨(h.file.write hf).afterAppend _ now hr, ?_, h.cache, ?_, ?_, ?_⟩
  · rw [hhanded, List.map_append]
    exact (h.order.write hf hfp).afterAppend _ now r
  · intro th'
    rw [hmade, hhanded, ofThread_snoc, ← h.account th']
    by_cases heq : th' = th
    · subst heq
      simp [hout]
    · simp only [Function.update_of_ne heq]
      rw [if_neg (Ne.symm heq), List.append_nil]
  · rw [hmade]
    exact h.lines
  · intro th' out'' hout'
    by_cases heq : th' = th
    · subst heq
      simp only [Function.update_self] at hout'
      cases hout'
    · simp only [Function.update_of_ne heq] at hout'
      exact h.argument th' out'' hout'

theorem Inv.rollFile (h : Inv c (s, events)) (hr : LogFile.IsTime r.now) :
    Inv c ({ s with file := ⟨(s.file.log.rollFile r).1, r.now⟩ }, events) :=
  { h with file := h.file.rollFile hr, order := h.order.rollFile }

theorem Inv.next {v : Program T × List (Event T)} (h : Inv c (s, events)) (hgood : Good s a)
    (hn : ((runs strerror_tl c).logged observe).Next (s, events) a v) : Inv c v := by
  obtain ⟨u, events'⟩ := v
  obtain ⟨hnext, rfl⟩ : (runs strerror_tl c).Next s a u ∧ events' = events ++ observe s a :=
    System.logged_next.mp hn
  obtain ⟨-, hs⟩ := of_guard' (show step strerror_tl s a = some (.ok u) from hnext)
  cases a with
  | setLogLevel level =>
      cases hs
      show Inv c (_, events ++ [])
      rw [List.append_nil]
      exact { h with }
  | setTimeZone tz =>
      cases hs
      show Inv c (_, events ++ [])
      rw [List.append_nil]
      exact { h with }
  | log th call =>
      obtain ⟨hnone, hok⟩ := of_guard hs
      exact h.log hgood hnone hok
  | output th results clock now r =>
      obtain ⟨out, hout, hok⟩ := Option.bind_eq_some_iff.mp hs
      exact h.output hgood hout hok
  | rollFile r =>
      rw [Program.act] at hs
      obtain ⟨result, hstep, hresult⟩ := Option.map_eq_some_iff.mp hs
      cases hstep
      cases hresult
      show Inv c (_, events ++ [])
      rw [List.append_nil]
      exact h.rollFile hgood

/-- `LOG_INFO;` at the end of a year. -/
def sampleCall : Call where
  name := .LOG_INFO
  func := none
  errno := 0
  file := Logger.sampleFile
  line := 51
  micros := 1640995199999999
  pieces := []
  env := Logger.sampleEnv

def sampleConfig : LogFile.Config := ⟨text "zing", 1000, 3, 1024⟩

def sampleStart : Program ℕ where
  logLevel := .INFO
  zone := none
  cache := fun _ => TimeCache.zero
  record := fun _ => none
  file := ⟨((⟨sampleConfig, 0, 0, 0, 0, none, []⟩ : LogFile).rollFile
    (LogFile.sampleReading 5)).1, 5⟩
  aborted := false

theorem sampleStart_start : Start sampleConfig sampleStart where
  zone := rfl
  cache := fun _ => rfl
  record := fun _ => rfl
  file := ⟨LogFile.sampleReading 5, by decide, rfl, rfl⟩
  running := rfl

/-- Two threads make a record each; the second one is handed out first, and the file is rolled in
between. -/
def sampleActions : List (Action ℕ) :=
  [.log 1 sampleCall, .log 2 sampleCall, .output 2 [⟨57, 0⟩] 6 6 (LogFile.sampleReading 6),
    .rollFile (LogFile.sampleReading 7),
    .output 1 [⟨50, 0⟩, ⟨7, 0⟩] 8 8 (LogFile.sampleReading 8)]

end LogPipeline

end Zing.Base
