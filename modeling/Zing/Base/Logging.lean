import Zing.Base.LogTime

set_option autoImplicit false

/-! # Log records

A log statement makes a `Logger`, which writes the header of the record, streams its pieces, and
destroys the `Logger`, which writes the trailer and hands the record to `g_output`. The pieces of
the trailer are dropped like any others if they do not fit, and the newline is one of them:
`record_terminated_iff` says for which statements the record has its header and its newline.

The condition looks at `free`, the bytes that are left of the buffer behind a sequence of pieces,
which depends on their lengths only.
-/

namespace Zing.Base

open Lib Detail

/-! ## Source files -/

/-- `strrchr(path, '/') + 1`, or the whole path if it has no slash. -/
def afterSlash (path : List UInt8) : List UInt8 :=
  (path.reverse.takeWhile (· ≠ 47)).reverse

/-- `class SourceFile`: the name behind the last slash, and its length as an `int`. -/
structure SourceFile where
  data : CString
  size : Int
  size_eq : size = narrow 32 data.chars.length

theorem afterSlash_suffix (path : List UInt8) : afterSlash path <:+ path := by
  rw [afterSlash, ← List.reverse_prefix, List.reverse_reverse]
  exact List.takeWhile_prefix _

/-- The name behind the last slash of a path. -/
def CString.afterSlash (path : CString) : CString where
  chars := Base.afterSlash path.chars
  no_zero h := path.no_zero ((afterSlash_suffix path.chars).mem h)

namespace SourceFile

/-- `SourceFile(filename)` -/
def ofFilename (filename : CString) : SourceFile where
  data := filename.afterSlash
  size := narrow 32 filename.afterSlash.chars.length
  size_eq := rfl

theorem arr_size {arr : CString} (h : arr.chars.length + 1 < 2 ^ 31) :
    (arr.chars.length - (arr.chars.length - arr.afterSlash.chars.length : Nat) : Int) =
      narrow 32 arr.afterSlash.chars.length := by
  have hle := (afterSlash_suffix arr.chars).length_le
  have hfits : Fits 32 (arr.afterSlash.chars.length : Int) := by
    show Fits 32 ((Base.afterSlash arr.chars).length : Int)
    simp only [Fits]
    omega
  rw [narrow_eq (by decide) hfits]
  show (arr.chars.length : Int) - (arr.chars.length - (Base.afterSlash arr.chars).length : Nat)
    = (Base.afterSlash arr.chars).length
  omega

/-- `SourceFile(arr)`, where the size of the array, with its terminator, is an `int`. -/
def ofArray (arr : CString) (h : arr.chars.length + 1 < 2 ^ 31) : SourceFile where
  data := arr.afterSlash
  size := arr.chars.length - (arr.chars.length - arr.afterSlash.chars.length : Nat)
  size_eq := arr_size h

/-- `operator<<` -/
def piece (v : SourceFile) : Piece :=
  .append ⟨⟨v.data.chars, v.size⟩, by
    rw [v.size_eq]
    exact StringPiece.readable_narrow (Nat.le_refl _)⟩

end SourceFile

theorem strlen_le (str : List UInt8) : strlen str ≤ str.length :=
  (List.takeWhile_prefix _).length_le

/-- `operator<<` -/
def T.piece (v : T) : Piece :=
  .append ⟨⟨v.str, narrow 32 v.len⟩, StringPiece.readable_narrow (v.len_eq ▸ strlen_le v.str)⟩

/-! ## `Logger` -/

inductive LogLevel
  | TRACE
  | DEBUG
  | INFO
  | WARN
  | ERROR
  | FATAL
  deriving DecidableEq, Repr

def LogLevelName : LogLevel → List UInt8
  | .TRACE => text "TRACE "
  | .DEBUG => text "DEBUG "
  | .INFO => text "INFO  "
  | .WARN => text "WARN  "
  | .ERROR => text "ERROR "
  | .FATAL => text "FATAL "

/-- A literal as an operand. -/
def literal (s : String) (h : 0 ∉ text s) : Piece := .chars (some ⟨text s, h⟩)

namespace Logger

/-- What a statement finds: the zone, what its thread keeps, the texts of doubles and of errors,
and memory that is not initialised. -/
structure Env where
  doubles : Doubles
  strerror_tl : Int32 → CString
  zone : Option Data
  tid : Int32
  cache : TimeCache
  us : Memory UInt8 32
  data : Memory UInt8 kSmallBuffer

/-- `t_tidString`, as `cacheTid` writes it. -/
def tidString (tid : Int32) : List UInt8 := padSpace 5 tid.toInt ++ text " "

/-- The constructors of `Logger` with the arguments that are not common to them. -/
inductive Constructor
  | file
  | level (level : LogLevel)
  | func (level : LogLevel) (func : Option CString)
  | toAbort (toAbort : Bool) (errno : Int32)

def Constructor.logLevel : Constructor → LogLevel
  | .file => .INFO
  | .level l => l
  | .func l _ => l
  | .toAbort abort _ => if abort then .FATAL else .ERROR

def Constructor.savedErrno : Constructor → Int32
  | .toAbort _ errno => errno
  | _ => 0

/-- What the constructor of `Logger` streams itself. -/
def Constructor.pieces : Constructor → List Piece
  | .func _ name => [.chars name, .char 32]
  | _ => []

/-- A log statement: the constructor and what is streamed. -/
structure Statement where
  constructor : Constructor
  file : SourceFile
  line : Int32
  micros : Nat
  pieces : List Piece

/-- `s << p₁ << p₂ << ...` -/
def shlAll (f : Doubles) (s : LogStream) (ps : List Piece) : Except OutOfBounds LogStream :=
  ps.foldlM (LogStream.shl f) s

/-- The pieces for a saved `errno`. -/
def errnoPieces (env : Env) (savedErrno : Int32) : List Piece :=
  if savedErrno ≠ 0 then
    [.chars (some (env.strerror_tl savedErrno)), literal " (errno=" (by decide),
      .int savedErrno, literal ") " (by decide)]
  else []

/-- `Logger::Impl::Impl` -/
def impl (env : Env) (level : LogLevel) (savedErrno : Int32) (micros : Nat) :
    Except LogFault (TimeCache × LogStream) := do
  let stream := LogStream.new env.data
  let (cache, time, us) ← formatTime env.cache env.zone env.us micros
  let stream ← nested .stream (shlAll env.doubles stream [time.piece, us.piece])
  let tid ← T.ofString (tidString env.tid ++ [0]) (tidString env.tid).length
  let stream ← nested .stream (shlAll env.doubles stream [tid.piece])
  let name ← T.ofString (LogLevelName level ++ [0]) 6
  let stream ← nested .stream
    (shlAll env.doubles stream (name.piece :: errnoPieces env savedErrno))
  return (cache, stream)

/-- `Logger::Impl::finish` -/
def trailer (file : SourceFile) (line : Int32) : List Piece :=
  [literal " - " (by decide), file.piece, .char 58, .int line, .char 10]

/-- What `~Logger` does: the record that goes to `g_output`, and whether it aborts then. -/
structure Output where
  msg : StringPiece
  abort : Bool

/-- A log statement from the constructor to the destructor. -/
def log (env : Env) (stmt : Statement) : Except LogFault (TimeCache × Output) := do
  let level := stmt.constructor.logLevel
  let (cache, stream) ← impl env level stmt.constructor.savedErrno stmt.micros
  let stream ← nested .stream (shlAll env.doubles stream stmt.constructor.pieces)
  let stream ← nested .stream (shlAll env.doubles stream stmt.pieces)
  let stream ← nested .stream (shlAll env.doubles stream (trailer stmt.file stmt.line))
  return (cache, ⟨stream.buffer.toStringPiece, decide (level = .FATAL)⟩)

/-! ## What is to be written -/

/-- A piece is appended if it is admitted. -/
def append (f : Doubles) (xs : List UInt8) (p : Piece) : List UInt8 :=
  if p.room ≤ kSmallBuffer - xs.length then xs ++ p.rendered f else xs

/-- The bytes that are left behind a piece, if `n` are left before it. -/
def left (f : Doubles) (n : Nat) (p : Piece) : Nat :=
  if p.room ≤ n then n - (p.rendered f).length else n

/-- The bytes of the buffer that are left behind a header and a sequence of pieces. -/
def free (f : Doubles) (header : List UInt8) (ps : List Piece) : Nat :=
  ps.foldl (left f) (kSmallBuffer - header.length)

/-- The time, thread and level header. -/
def header (env : Env) (level : LogLevel) (time us : T) : List UInt8 :=
  time.text ++ us.text ++ tidString env.tid ++ LogLevelName level

/-- What a statement streams between the header and the trailer. -/
def Statement.streamed (env : Env) (stmt : Statement) : List Piece :=
  errnoPieces env stmt.constructor.savedErrno ++ stmt.constructor.pieces ++ stmt.pieces

/-- The record begins with its header and ends with a newline. -/
def Terminated (header : List UInt8) (msg : StringPiece) : Prop :=
  ∃ record, msg.bytes = some record ∧ header <+: record ∧ record.getLast? = some 10

/-- The message without the line number leaves three bytes of the buffer; or it leaves one, and
the name of the file, which comes last, brings a newline of its own. -/
def LeavesLine (env : Env) (header : List UInt8) (stmt : Statement) : Prop :=
  let f := env.doubles
  let dash := stmt.streamed env ++ [literal " - " (by decide)]
  let name := stmt.file.piece
  3 ≤ free f header (dash ++ [name]) ∨
    free f header (dash ++ [name]) = 1 ∧ name.room ≤ free f header dash ∧
      (name.rendered f).getLast? = some 10

/-! ## Sequences of pieces -/

variable {f : Doubles} {s t : LogStream} {p : Piece} {ps qs : List Piece} {xs : List UInt8}

theorem shl_append (hf : ∀ d, (f.g12 d).length < LogStream.kMaxNumericSize)
    (hs : s.buffer.cur < kSmallBuffer) (p : Piece) :
    ∃ t, s.shl f p = .ok t ∧ t.buffer.content = append f s.buffer.content p ∧
      t.buffer.cur < kSmallBuffer := by
  obtain ⟨t, ht, htook⟩ := s.shl_spec hf p
  refine ⟨t, ht, ?_, htook.cur_lt (LogStream.rendered_lt_room hf p) hs⟩
  rw [append, FixedBuffer.content_length, htook]
  split
  · rfl
  · rw [List.append_nil]

/-- Streaming never fails, and appends what is admitted. -/
theorem shlAll_spec (hf : ∀ d, (f.g12 d).length < LogStream.kMaxNumericSize)
    (hs : s.buffer.cur < kSmallBuffer) (ps : List Piece) :
    ∃ t, shlAll f s ps = .ok t ∧ t.buffer.content = ps.foldl (append f) s.buffer.content ∧
      t.buffer.cur < kSmallBuffer := by
  induction ps generalizing s with
  | nil => exact ⟨s, rfl, rfl, hs⟩
  | cons p ps ih =>
      obtain ⟨t, ht, hcontent, hcur⟩ := shl_append hf hs p
      obtain ⟨u, hu, hrest, hcur'⟩ := ih hcur
      refine ⟨u, ?_, ?_, hcur'⟩
      · rw [shlAll, List.foldlM_cons, ht, ok_bind]
        exact hu
      · rw [hrest, hcontent, List.foldl_cons]

/-- The bytes that are left are counted along. -/
theorem left_append (n : Nat) (hn : n = kSmallBuffer - xs.length) (p : Piece) :
    left f n p = kSmallBuffer - (append f xs p).length := by
  subst hn
  rw [left, append]
  split
  · rw [List.length_append, Nat.sub_add_eq]
  · rfl

theorem foldl_left (n : Nat) (hn : n = kSmallBuffer - xs.length) (ps : List Piece) :
    ps.foldl (left f) n = kSmallBuffer - (ps.foldl (append f) xs).length := by
  induction ps generalizing n xs with
  | nil => exact hn
  | cons p ps ih => exact ih _ (left_append n hn p)

theorem free_eq (f : Doubles) (header : List UInt8) (ps : List Piece) :
    free f header ps = kSmallBuffer - (ps.foldl (append f) header).length :=
  foldl_left _ rfl ps

/-- What stands there stays, and pieces without a newline bring none. -/
theorem foldl_append_eq (xs : List UInt8) (hps : ∀ p ∈ ps, 10 ∉ p.rendered f) :
    ∃ rest, ps.foldl (append f) xs = xs ++ rest ∧ 10 ∉ rest := by
  induction ps generalizing xs with
  | nil => exact ⟨[], (List.append_nil xs).symm, List.not_mem_nil⟩
  | cons p ps ih =>
      obtain ⟨rest, hrest, hnot⟩ := ih (append f xs p) fun q hq => hps q (List.mem_cons_of_mem _ hq)
      rw [List.foldl_cons, hrest, append]
      split
      · refine ⟨p.rendered f ++ rest, List.append_assoc _ _ _, ?_⟩
        rw [List.mem_append]
        rintro (h | h)
        · exact hps p List.mem_cons_self h
        · exact hnot h
      · exact ⟨rest, rfl, hnot⟩

theorem prefix_foldl (xs : List UInt8) (ps : List Piece) : xs <+: ps.foldl (append f) xs := by
  induction ps generalizing xs with
  | nil => exact List.prefix_rfl
  | cons p ps ih =>
      refine List.IsPrefix.trans ?_ (ih (append f xs p))
      rw [append]
      split
      · exact List.prefix_append _ _
      · exact List.prefix_rfl

/-- Pieces that fit together are all written. -/
theorem foldl_append_all (hps : ∀ p ∈ ps, p.room = (p.rendered f).length + 1)
    (hfit : xs.length + (ps.map (Piece.rendered f)).flatten.length < kSmallBuffer) :
    ps.foldl (append f) xs = xs ++ (ps.map (Piece.rendered f)).flatten := by
  induction ps generalizing xs with
  | nil => exact (List.append_nil xs).symm
  | cons p ps ih =>
      rw [List.map_cons, List.flatten_cons, List.length_append] at hfit
      have hroom := hps p List.mem_cons_self
      have hkept : append f xs p = xs ++ p.rendered f := by
        rw [append, if_pos (by omega)]
      rw [List.foldl_cons, hkept, ih (fun q hq => hps q (List.mem_cons_of_mem _ hq)),
        List.map_cons, List.flatten_cons, List.append_assoc]
      rw [List.length_append]
      omega

/-! ## The end of the record -/

theorem append_of_room (h : p.room ≤ kSmallBuffer - xs.length) :
    append f xs p = xs ++ p.rendered f := if_pos h

theorem append_of_not_room (h : ¬ p.room ≤ kSmallBuffer - xs.length) : append f xs p = xs :=
  if_neg h

theorem length_append_lt (hf : ∀ d, (f.g12 d).length < LogStream.kMaxNumericSize)
    (h : xs.length < kSmallBuffer) (p : Piece) : (append f xs p).length < kSmallBuffer := by
  rw [append]
  split
  · have := LogStream.rendered_lt_room hf p
    rw [List.length_append]
    omega
  · exact h

/-- A line number is admitted only where it leaves room for the newline. -/
theorem line_leaves (h : 2 ≤ kSmallBuffer - xs.length) (line : Int32) :
    2 ≤ kSmallBuffer - (append f xs (.int line)).length := by
  have hlow := line.le_toInt
  have hhigh := line.toInt_lt
  have hlen : (decimal line.toInt).length ≤ 11 := decimal_length_le (by decide) (by omega)
  by_cases hroom : 48 ≤ kSmallBuffer - xs.length
  · have hkept : append f xs (.int line) = xs ++ decimal line.toInt := append_of_room hroom
    rw [hkept, List.length_append]
    omega
  · have hdrop : append f xs (.int line) = xs := append_of_not_room hroom
    rw [hdrop]
    exact h

/-- The end of the trailer, behind the name of the file. -/
theorem foldl_ending (xs : List UInt8) (line : Int32) :
    [.char 58, .int line, .char 10].foldl (append f) xs
      = append f (append f (append f xs (.char 58)) (.int line)) (.char 10) := by
  rw [List.foldl_cons, List.foldl_cons, List.foldl_cons, List.foldl_nil]

theorem ending_long (h : 3 ≤ kSmallBuffer - xs.length) (line : Int32) :
    ([.char 58, .int line, .char 10].foldl (append f) xs).getLast? = some 10 := by
  have hcolon : append f xs (.char 58) = xs ++ [58] :=
    append_of_room (Nat.le_of_succ_le h)
  have hlen : 2 ≤ kSmallBuffer - (xs ++ [58]).length := by
    rw [List.length_append, List.length_singleton]
    omega
  have hnewline : append f (append f (xs ++ [58]) (.int line)) (.char 10)
      = append f (xs ++ [58]) (.int line) ++ [10] := append_of_room (line_leaves hlen line)
  rw [foldl_ending, hcolon, hnewline, List.getLast?_concat]

theorem ending_two (h : kSmallBuffer - xs.length = 2) (line : Int32) :
    [.char 58, .int line, .char 10].foldl (append f) xs = xs ++ [58] := by
  have hcolon : append f xs (.char 58) = xs ++ [58] := append_of_room (Nat.le_of_eq h.symm)
  have hlen : kSmallBuffer - (xs ++ [58]).length = 1 := by
    rw [List.length_append, List.length_singleton]
    omega
  have hline : append f (xs ++ [58]) (.int line) = xs ++ [58] :=
    append_of_not_room (by rw [hlen]; show ¬ 48 ≤ 1; decide)
  have hnewline : append f (xs ++ [58]) (.char 10) = xs ++ [58] :=
    append_of_not_room (by rw [hlen]; show ¬ 2 ≤ 1; decide)
  calc [.char 58, .int line, .char 10].foldl (append f) xs
      = append f (append f (append f xs (.char 58)) (.int line)) (.char 10) := foldl_ending xs line
    _ = append f (append f (xs ++ [58]) (.int line)) (.char 10) := by rw [hcolon]
    _ = append f (xs ++ [58]) (.char 10) := by rw [hline]
    _ = xs ++ [58] := hnewline

theorem ending_one (h : kSmallBuffer - xs.length = 1) (line : Int32) :
    [.char 58, .int line, .char 10].foldl (append f) xs = xs := by
  have hchar : ∀ c, append f xs (.char c) = xs := fun c =>
    append_of_not_room (by rw [h]; show ¬ 2 ≤ 1; decide)
  have hline : append f xs (.int line) = xs :=
    append_of_not_room (by rw [h]; show ¬ 48 ≤ 1; decide)
  calc [.char 58, .int line, .char 10].foldl (append f) xs
      = append f (append f (append f xs (.char 58)) (.int line)) (.char 10) := foldl_ending xs line
    _ = append f (append f xs (.int line)) (.char 10) := by rw [hchar]
    _ = append f xs (.char 10) := by rw [hline]
    _ = xs := hchar 10

/-- What stands before the name of the file does not end with a newline, if it goes beyond the
header. -/
theorem getLast_beyond {header rest : List UInt8} (hheader : header.length + 1 < kSmallBuffer)
    (hrest : 10 ∉ rest) (hfull : kSmallBuffer - (header ++ rest).length ≤ 1) :
    (header ++ rest).getLast? ≠ some 10 := by
  have hne : rest ≠ [] := by
    rintro rfl
    rw [List.append_nil] at hfull
    omega
  rw [List.getLast?_append_of_ne_nil _ hne]
  intro hlast
  exact hrest (List.mem_of_getLast? hlast)

theorem length_foldl_lt (hf : ∀ d, (f.g12 d).length < LogStream.kMaxNumericSize)
    (h : xs.length < kSmallBuffer) (ps : List Piece) :
    (ps.foldl (append f) xs).length < kSmallBuffer := by
  induction ps generalizing xs with
  | nil => exact h
  | cons p ps ih => exact ih (length_append_lt hf h p)

/-- When a record ends with a newline. -/
theorem getLast_record_iff {env : Env} {header : List UInt8} {stmt : Statement}
    (hf : ∀ d, (env.doubles.g12 d).length < LogStream.kMaxNumericSize)
    (hheader : header.length + 1 < kSmallBuffer)
    (hline : ∀ p ∈ stmt.streamed env, 10 ∉ p.rendered env.doubles) :
    ((stmt.streamed env ++ trailer stmt.file stmt.line).foldl (append env.doubles)
        header).getLast? = some 10 ↔ LeavesLine env header stmt := by
  rw [LeavesLine, free_eq, free_eq]
  have hdash : ∀ p ∈ stmt.streamed env ++ [literal " - " (by decide)],
      10 ∉ p.rendered env.doubles := by
    intro p hp
    rcases List.mem_append.mp hp with hp | hp
    · exact hline p hp
    · rw [List.mem_singleton.mp hp]
      show 10 ∉ text " - "
      decide
  obtain ⟨rest, hrest, hnot⟩ := foldl_append_eq (f := env.doubles) header hdash
  have hsplit : stmt.streamed env ++ trailer stmt.file stmt.line
      = stmt.streamed env ++ [literal " - " (by decide)] ++
        (stmt.file.piece :: [.char 58, .int stmt.line, .char 10]) := by
    rw [List.append_assoc]
    rfl
  have hlt := length_foldl_lt hf (by omega : header.length < kSmallBuffer)
    (stmt.streamed env ++ [literal " - " (by decide)])
  have hconcat : ∀ ps, (ps ++ [stmt.file.piece]).foldl (append env.doubles) header
      = append env.doubles (ps.foldl (append env.doubles) header) stmt.file.piece := fun ps => by
    rw [List.foldl_append]
    rfl
  rw [hsplit, hconcat, List.foldl_append, List.foldl_cons, hrest]
  rw [hrest] at hlt
  have hname := length_append_lt hf hlt stmt.file.piece
  have hbeyond := getLast_beyond hheader hnot
  generalize hc : append env.doubles (header ++ rest) stmt.file.piece = c at hname
  by_cases hlong : 3 ≤ kSmallBuffer - c.length
  · rw [ending_long hlong]
    exact iff_of_true rfl (Or.inl hlong)
  by_cases htwo : kSmallBuffer - c.length = 2
  · rw [ending_two htwo, List.getLast?_concat, htwo]
    simp
  have hone : kSmallBuffer - c.length = 1 := by omega
  rw [ending_one hone, hone]
  simp only [Nat.reduceLeDiff, true_and, false_or]
  by_cases hroom : stmt.file.piece.room ≤ kSmallBuffer - (header ++ rest).length
  · rw [append_of_room hroom] at hc
    rw [← hc]
    by_cases hempty : stmt.file.piece.rendered env.doubles = []
    · rw [hempty, List.append_nil] at hc ⊢
      rw [← hc] at hone
      exact iff_of_false (hbeyond hone.le) (fun h => nomatch h.2)
    · rw [List.getLast?_append_of_ne_nil _ hempty]
      exact (and_iff_right hroom).symm
  · rw [append_of_not_room hroom] at hc
    rw [← hc] at hone ⊢
    exact iff_of_false (hbeyond hone.le) fun h => hroom h.1

/-! ## The record -/

/-- The length that `append` gets. -/
theorem sizeT_piece (str : List UInt8) {n : Nat} (h : n < 2 ^ 31) :
    (StringPiece.mk str (narrow 32 n)).sizeT = n := by
  have hcast := StringPiece.throughInt_eq h
  rw [StringPiece.throughInt] at hcast
  simp only [StringPiece.sizeT]
  exact hcast

theorem rendered_piece {v : T} (h : v.len < 2 ^ 31) :
    v.piece.rendered f = v.text ∧ v.piece.room = (v.piece.rendered f).length + 1 := by
  have hrendered : v.piece.rendered f = v.text := by
    show v.str.take (StringPiece.mk v.str (narrow 32 v.len)).sizeT = v.text
    rw [sizeT_piece _ h]
    rfl
  refine ⟨hrendered, ?_⟩
  rw [hrendered, T.length_text]
  show (StringPiece.mk v.str (narrow 32 v.len)).sizeT + 1 = v.len + 1
  rw [sizeT_piece _ h]

theorem tidString_spec (tid : Int32) :
    Printable (tidString tid) ∧ (tidString tid).length ≤ 12 := by
  have hlow := tid.le_toInt
  have hhigh := tid.toInt_lt
  have hlen := length_padSpace_le (w := 5) (v := tid.toInt) (k := 10) (by decide) (by omega)
  refine ⟨(printable_padSpace _ _).append (by decide), ?_⟩
  rw [tidString, List.length_append]
  have htext : (text " ").length = 1 := rfl
  omega

theorem levelName_spec (level : LogLevel) :
    Printable (LogLevelName level) ∧ (LogLevelName level).length = 6 := by
  cases level <;> decide

variable {env : Env} {stmt : Statement} {cache' : TimeCache} {time us : T} {level : LogLevel}

theorem header_length_le (env : Env) (level : LogLevel) (htime : time.len = 17) (hus : us.len ≤ 9) :
    (header env level time us).length ≤ 44 := by
  have htid := (tidString_spec env.tid).2
  have hname := (levelName_spec level).2
  rw [header, List.length_append, List.length_append, List.length_append, T.length_text,
    T.length_text]
  omega

/-- There is room for the whole header. -/
theorem foldl_header {tid name : T} (htime : time.len = 17) (hus : us.len ≤ 9)
    (htid : tid.text = tidString env.tid) (hname : name.text = LogLevelName level) :
    [time.piece, us.piece, tid.piece, name.piece].foldl (append env.doubles) []
      = header env level time us := by
  have htidLen : tid.len ≤ 12 := by
    rw [← T.length_text, htid]
    exact (tidString_spec env.tid).2
  have hnameLen : name.len = 6 := by
    rw [← T.length_text, hname]
    exact (levelName_spec level).2
  have hrendered : ∀ t ∈ [time, us, tid, name], t.piece.rendered env.doubles = t.text ∧
      t.piece.room = (t.piece.rendered env.doubles).length + 1 := by
    intro t ht
    apply rendered_piece
    simp only [List.mem_cons, List.not_mem_nil, or_false] at ht
    rcases ht with rfl | rfl | rfl | rfl <;> omega
  have hflat : (List.map (Piece.rendered env.doubles)
      [time.piece, us.piece, tid.piece, name.piece]).flatten = header env level time us := by
    simp only [List.map_cons, List.map_nil, List.flatten_cons, List.flatten_nil,
      (hrendered time (by simp)).1, (hrendered us (by simp)).1, (hrendered tid (by simp)).1,
      (hrendered name (by simp)).1, htid, hname, header, List.append_assoc, List.append_nil]
  rw [foldl_append_all, hflat, List.nil_append]
  · intro p hp
    obtain ⟨t, ht, rfl⟩ := List.mem_map.mp (show p ∈ [time, us, tid, name].map T.piece from hp)
    exact (hrendered t ht).2
  · have hlen := header_length_le env level htime hus
    rw [hflat, List.length_nil, Nat.zero_add]
    exact Nat.lt_of_le_of_lt hlen (by decide)

/-- The constructor writes the header, and behind it what there is to say about `errno`. -/
theorem impl_spec (level : LogLevel) (savedErrno : Int32) {micros : Nat}
    (hf : ∀ d, (env.doubles.g12 d).length < LogStream.kMaxNumericSize)
    (hformat : formatTime env.cache env.zone env.us micros = .ok (cache', time, us)) :
    ∃ s, impl env level savedErrno micros = .ok (cache', s) ∧
      s.buffer.content = (errnoPieces env savedErrno).foldl (append env.doubles)
        (header env level time us) ∧ s.buffer.cur < kSmallBuffer := by
  obtain ⟨htime, hus⟩ := formatTime_len hformat
  obtain ⟨hnamePrint, hnameLen⟩ := levelName_spec level
  obtain ⟨tid, htid, htidText⟩ := ofString_terminated (tidString_spec env.tid).1 []
  obtain ⟨name, hname, hnameText⟩ := ofString_terminated hnamePrint []
  rw [hnameLen] at hname
  obtain ⟨s₁, h₁, hcontent₁, hcur₁⟩ := shlAll_spec hf (LogStream.cur_new env.data)
    [time.piece, us.piece]
  obtain ⟨s₂, h₂, hcontent₂, hcur₂⟩ := shlAll_spec hf hcur₁ [tid.piece]
  obtain ⟨s₃, h₃, hcontent₃, hcur₃⟩ := shlAll_spec hf hcur₂
    (name.piece :: errnoPieces env savedErrno)
  refine ⟨s₃, ?_, ?_, hcur₃⟩
  · rw [impl, hformat, ok_bind]
    dsimp only
    rw [h₁, nested_ok, ok_bind, htid, ok_bind, h₂, nested_ok, ok_bind, hname, ok_bind, h₃,
      nested_ok, ok_bind]
    rfl
  · have hheader := foldl_header htime hus htidText hnameText
    have hsplit : [time.piece, us.piece] ++ ([tid.piece] ++
        name.piece :: errnoPieces env savedErrno)
          = [time.piece, us.piece, tid.piece, name.piece] ++ errnoPieces env savedErrno := rfl
    rw [hcontent₃, hcontent₂, hcontent₁, LogStream.content_new, ← hheader, ← List.foldl_append,
      ← List.foldl_append, ← List.foldl_append, hsplit]

/-- A statement that gets its time hands its record out: the header, and what is admitted of the
pieces behind it. -/
theorem log_spec (stmt : Statement)
    (hf : ∀ d, (env.doubles.g12 d).length < LogStream.kMaxNumericSize)
    (hformat : formatTime env.cache env.zone env.us stmt.micros = .ok (cache', time, us)) :
    ∃ out, log env stmt = .ok (cache', out) ∧
      out.msg.bytes = some ((stmt.streamed env ++ trailer stmt.file stmt.line).foldl
        (append env.doubles) (header env stmt.constructor.logLevel time us)) := by
  obtain ⟨s₀, h₀, hcontent₀, hcur₀⟩ := impl_spec stmt.constructor.logLevel
    stmt.constructor.savedErrno hf hformat
  obtain ⟨s₁, h₁, hcontent₁, hcur₁⟩ := shlAll_spec hf hcur₀ stmt.constructor.pieces
  obtain ⟨s₂, h₂, hcontent₂, hcur₂⟩ := shlAll_spec hf hcur₁ stmt.pieces
  obtain ⟨s₃, h₃, hcontent₃, -⟩ := shlAll_spec hf hcur₂ (trailer stmt.file stmt.line)
  refine ⟨⟨s₃.buffer.toStringPiece, decide (stmt.constructor.logLevel = .FATAL)⟩, ?_, ?_⟩
  · rw [log]
    simp only [h₀, ok_bind, h₁, nested_ok, h₂, h₃, pure_eq_ok]
  · obtain ⟨-, hsize⟩ := LogStream.readable_toStringPiece s₃.buffer
    have hle : s₃.buffer.cur ≤ s₃.buffer.toStringPiece.ptr.length := by
      show s₃.buffer.cur ≤ s₃.buffer.data.cells.length
      rw [s₃.buffer.data.length_cells]
      exact s₃.buffer.cur_le
    rw [StringPiece.bytes, hsize, if_pos hle]
    have hcontent : s₃.buffer.toStringPiece.ptr.take s₃.buffer.cur = s₃.buffer.content := rfl
    rw [hcontent, hcontent₃, hcontent₂, hcontent₁, hcontent₀, Statement.streamed,
      List.foldl_append, List.foldl_append, List.foldl_append]

/-- Every statement that gets its time hands out a record with its header in front. It ends with
a newline if and only if the message leaves room for the end of the trailer. -/
theorem record_terminated_iff (env : Env) (stmt : Statement)
    (hf : ∀ d, (env.doubles.g12 d).length < LogStream.kMaxNumericSize)
    (hline : ∀ p ∈ stmt.streamed env, 10 ∉ p.rendered env.doubles)
    (hformat : formatTime env.cache env.zone env.us stmt.micros = .ok (cache', time, us)) :
    ∃ out, log env stmt = .ok (cache', out) ∧
      (Terminated (header env stmt.constructor.logLevel time us) out.msg ↔
        LeavesLine env (header env stmt.constructor.logLevel time us) stmt) := by
  obtain ⟨out, hlog, hbytes⟩ := log_spec stmt hf hformat
  obtain ⟨htime, hus⟩ := formatTime_len hformat
  have hheader := header_length_le env stmt.constructor.logLevel htime hus
  have hsize : (header env stmt.constructor.logLevel time us).length + 1 < kSmallBuffer :=
    Nat.lt_of_le_of_lt (Nat.succ_le_succ hheader) (by decide)
  refine ⟨out, hlog, ?_⟩
  rw [← getLast_record_iff hf hsize hline, Terminated]
  constructor
  · rintro ⟨record, hrecord, -, hlast⟩
    rw [hbytes, Option.some.injEq] at hrecord
    rw [hrecord]
    exact hlast
  · intro hlast
    exact ⟨_, hbytes, prefix_foldl _ _, hlast⟩

/-! ## Samples -/

/-- No zone is set, and the thread 4711 has not logged yet. -/
def sampleEnv : Env where
  doubles := LogStream.sampleDoubles
  strerror_tl _ := ⟨text "Success", by decide⟩
  zone := none
  tid := 4711
  cache := TimeCache.zero
  us := LogTimes.sampleBuf
  data := ⟨List.replicate kSmallBuffer 0, List.length_replicate⟩

def sampleFile : SourceFile := .ofFilename ⟨text "net/Acceptor.cpp", by decide⟩

/-- `LOG_INFO << ...` at the end of a year. -/
def sampleStatement (pieces : List Piece) : Statement where
  constructor := .file
  file := sampleFile
  line := 51
  micros := 1640995199999999
  pieces := pieces

theorem sampleEnv_doubles (d : UInt64) :
    (sampleEnv.doubles.g12 d).length < LogStream.kMaxNumericSize :=
  show (text "1.5").length < LogStream.kMaxNumericSize by decide

theorem record_terminated_sample : ∃ cache out,
    log sampleEnv (sampleStatement [.string (text "accept"), .int 3]) = .ok (cache, out) ∧
      ∃ header, Terminated header out.msg := by
  have hline : ∀ p ∈ (sampleStatement [.string (text "accept"), .int 3]).streamed sampleEnv,
      10 ∉ p.rendered sampleEnv.doubles := by
    intro p hp
    rcases List.mem_cons.mp hp with rfl | hp
    · show 10 ∉ text "accept"
      decide
    · rw [List.mem_singleton.mp hp]
      show 10 ∉ decimal (Int32.toInt 3)
      decide
  obtain ⟨out, hlog, hiff⟩ := record_terminated_iff sampleEnv _ sampleEnv_doubles hline (by rfl)
  exact ⟨_, out, hlog, _, hiff.mpr (Or.inl (by decide))⟩

theorem sampleEnv_time : ∃ cache time us,
    formatTime sampleEnv.cache sampleEnv.zone sampleEnv.us (1640995199999999 : Nat)
      = .ok (cache, time, us) ∧ us.len = 9 :=
  ⟨_, _, _, by rfl, by rfl⟩

/-- A message that leaves a single byte of the buffer, and with it nothing of the trailer. -/
theorem record_unterminated : ¬ ∀ (env : Env) (stmt : Statement) (cache : TimeCache) (out : Output),
    (∀ d, (env.doubles.g12 d).length < LogStream.kMaxNumericSize) →
    (∀ p ∈ stmt.streamed env, 10 ∉ p.rendered env.doubles) →
    log env stmt = .ok (cache, out) →
    ∃ record, out.msg.bytes = some record ∧ record.getLast? = some 10 := by
  intro hall
  have hlong : (List.replicate 3961 (120 : UInt8)).length = 3961 := List.length_replicate
  have hnot : 10 ∉ List.replicate 3961 (120 : UInt8) := by
    intro hmem
    exact absurd (List.eq_of_mem_replicate hmem) (by decide)
  generalize List.replicate 3961 (120 : UInt8) = long at hlong hnot
  have hline : ∀ p ∈ (sampleStatement [.string long]).streamed sampleEnv,
      10 ∉ p.rendered sampleEnv.doubles := by
    intro p hp
    rw [List.mem_singleton.mp hp]
    exact hnot
  obtain ⟨cache, time, us, hformat, hus⟩ := sampleEnv_time
  obtain ⟨out, hlog, hbytes⟩ := log_spec (sampleStatement [.string long]) sampleEnv_doubles
    hformat
  have hheader : (header sampleEnv .INFO time us).length = 38 := by
    have htid : (tidString sampleEnv.tid).length = 6 := by decide
    have hname : (LogLevelName .INFO).length = 6 := rfl
    rw [header, List.length_append, List.length_append, List.length_append, T.length_text,
      T.length_text, (formatTime_len hformat).1, hus, htid, hname]
  obtain ⟨record, hrecord, hlast⟩ := hall _ _ _ _ sampleEnv_doubles hline hlog
  rw [hbytes, Option.some.injEq] at hrecord
  have hfits : (header sampleEnv .INFO time us).length + 1 < kSmallBuffer := by
    rw [hheader]
    decide
  rw [← hrecord] at hlast
  have hleaves := (getLast_record_iff sampleEnv_doubles hfits hline).mp hlast
  have hmessage : left sampleEnv.doubles (kSmallBuffer - 38) (.string long) = 1 := by
    rw [left, Piece.room, Piece.rendered, hlong]
    rfl
  have hfree : ∀ ps, free sampleEnv.doubles (header sampleEnv .INFO time us)
      (.string long :: ps) = ps.foldl (left sampleEnv.doubles) 1 := by
    intro ps
    rw [free, hheader, List.foldl_cons, hmessage]
  rcases hleaves with h | ⟨-, h, -⟩
  · change 3 ≤ free _ _ (.string long :: [literal " - " (by decide), sampleFile.piece]) at h
    rw [hfree] at h
    revert h
    decide
  · change sampleFile.piece.room ≤ free _ _ (.string long :: [literal " - " (by decide)]) at h
    rw [hfree] at h
    revert h
    decide

end Logger

end Zing.Base
