import Zing.Base.TimeZone
import Zing.Lib.Endian
import Zing.Lib.Reader

set_option autoImplicit false

/-! # Zone files

`readTimeZoneFile` fills the tables of a zone from a file. An exception of type `logic_error` is
caught inside it and leaves the tables as they are by then; undefined behaviour is a failure.
A file is the list of its bytes, or `none` where it cannot be opened; `o` is the byte order of
the host. Memory suffices for every size that is asked for.

The second half is about the files that are encodings of a `Content`.
-/

namespace Zing.Base

open Lib Reader

/-! ## Reading -/

/-- What ends the reading early. -/
inductive Stop
  | logicError (what : String)
  | undefined (fault : Fault)
deriving DecidableEq, Repr

/-- A statement of `readTimeZoneFile`: it reads from the file and fills the tables. -/
abbrev Read := Reader UInt8 Data Stop

/-- `File::readBytes` -/
def readBytes (n : Int) : Read (List UInt8) := do
  ensure (0 ≤ n) (.undefined .arraySize)
  take n.toNat (.logicError "no enough data")

/-- `File::readInt32` -/
def readInt32 (o : ByteOrder) : Read Int := do
  let x ← take 4 (.logicError "bad int32_t data")
  return narrow 32 (betoh o 4 (load o x))

/-- `File::readUInt8` -/
def readUInt8 : Read UInt8 := do
  let x ← take 1 (.logicError "bad uint8_t data")
  return x.headD 0

/-- `"TZif"` -/
def magic : List UInt8 := [84, 90, 105, 102]

/-- A local time type in a file. -/
structure LocalType where
  gmtoff : Int
  isdst : UInt8
  abbrind : UInt8
deriving DecidableEq, Repr

/-- The entry of the table for a type of the file. -/
def LocalType.localtime (ty : LocalType) : Localtime where
  gmtOffset := ty.gmtoff
  isDst := ty.isdst ≠ 0
  arrbIdx := ty.abbrind.toNat

/-- Read a local time type and add it to the table. -/
def readType (o : ByteOrder) : Read LocalType := do
  let gmtoff ← readInt32 o
  let isdst ← readUInt8
  let abbrind ← readUInt8
  let ty := LocalType.mk gmtoff isdst abbrind
  update fun data => { data with localtimes := data.localtimes ++ [ty.localtime] }
  return ty

/-- Add the transition at `trans` to the type `localIdx`. -/
def addTransition (trans : Int) (localIdx : UInt8) : Read Unit := do
  let data ← state
  match data.localtimes[localIdx.toNat]? with
  | none => throw (.undefined .localtimes)
  | some lt =>
      let localtime := trans + lt.gmtOffset
      update fun data => { data with
        transitions := data.transitions ++ [⟨trans, localtime, localIdx.toNat⟩] }

def addTransitions : List (Int × UInt8) → Read Unit
  | [] => pure ()
  | p :: rest => do
      addTransition p.1 p.2
      addTransitions rest

/-- The body of the `try` block of `readTimeZoneFile`. -/
def readTables (o : ByteOrder) : Read Unit := do
  let head ← readBytes 4
  ensure (head = magic) (.logicError "bad head")
  let _version ← readBytes 1
  let _ ← readBytes 15
  let _isgmtcnt ← readInt32 o
  let _isstdcnt ← readInt32 o
  let _leapcnt ← readInt32 o
  let timecnt ← readInt32 o
  let typecnt ← readInt32 o
  let charcnt ← readInt32 o
  -- `trans.reserve(timecnt)` throws a `length_error` for a number that does not fit
  ensure (0 ≤ timecnt) (.logicError "vector::reserve")
  let trans ← many (readInt32 o) timecnt.toNat
  let localtimes ← many readUInt8 timecnt.toNat
  let _ ← many (readType o) typecnt.toNat
  addTransitions (trans.zip localtimes)
  let abbreviation ← readBytes charcnt
  update fun data => { data with abbreviation := abbreviation }

/-- `detail::readTimeZoneFile`: what it returns, and the tables. -/
def readTimeZoneFile (o : ByteOrder) (zonefile : Option (List UInt8)) (data : Data) :
    Except Fault (Bool × Data) :=
  match zonefile with
  | none => .ok (true, data)
  | some bytes =>
      match exec (readTables o) (bytes, data) with
      | (.ok (), (_, data)) => .ok (true, data)
      | (.error (.logicError _), (_, data)) => .ok (true, data)
      | (.error (.undefined fault), _) => .error fault

def Data.empty : Data where
  transitions := []
  localtimes := []
  abbreviation := []

/-- `class TimeZone`, which is `valid()` if it points to tables. -/
structure TimeZone where
  data : Option Data
deriving DecidableEq, Repr

def TimeZone.valid (z : TimeZone) : Bool := z.data.isSome

/-- `TimeZone(const char* zonefile)` -/
def TimeZone.ofFile (o : ByteOrder) (zonefile : Option (List UInt8)) :
    Except Fault TimeZone := do
  let (ok, data) ← readTimeZoneFile o zonefile Data.empty
  if ok then return ⟨some data⟩ else return ⟨none⟩

/-! ## What each function reads -/

/-- The bytes of an `int32_t` in a file. -/
def int32Bytes (z : Int) : List UInt8 := bigEndian 4 (toUnsigned 32 z)

def LocalType.encode (ty : LocalType) : List UInt8 :=
  int32Bytes ty.gmtoff ++ ([ty.isdst] ++ [ty.abbrind])

theorem fits_narrow (z : Int) : Fits 32 (narrow 32 z) := by
  have hlow := Int.le_bmod (x := z) (m := 2 ^ 32) (by decide)
  have hhigh := Int.bmod_lt (x := z) (m := 2 ^ 32) (by decide)
  rw [fits_32, narrow]
  omega

variable {o : ByteOrder}

theorem readBytes_reads (n : Int) :
    Reads (readBytes n) (fun bytes => (bytes.length : Int) = n) (fun bytes => bytes)
      fun _ data => data := by
  intro bs s bytes bs' s'
  rw [readBytes, (ensure_reads _ _).bind]
  constructor
  · intro ⟨_, bs₁, hn, hbs, hread⟩
    obtain ⟨hl, hbs₁, hs⟩ := (take_reads _ _ _ _ _ _ _).mp hread
    exact ⟨by omega, hbs.trans hbs₁, hs⟩
  · intro ⟨hl, hbs, hs⟩
    exact ⟨(), bs, by omega, rfl, (take_reads _ _ _ _ _ _ _).mpr ⟨by omega, hbs, hs⟩⟩

/-- The value of four bytes is the one that has these bytes. -/
theorem int32_of_bytes {bytes : List UInt8} (h : bytes.length = 4) {z : Int} :
    narrow 32 (betoh o 4 (load o bytes)) = z ↔ Fits 32 z ∧ bytes = int32Bytes z := by
  rw [betoh_load h]
  constructor
  · intro hz
    have hlt := ofBigEndian_lt bytes
    rw [h] at hlt
    refine ⟨hz ▸ fits_narrow _, ?_⟩
    rw [int32Bytes, ← hz, toUnsigned_narrow hlt, bigEndian_ofBigEndian h]
  · intro ⟨hfits, hbytes⟩
    have hlt : toUnsigned 32 z < 256 ^ 4 := toUnsigned_lt 32 z
    rw [hbytes, int32Bytes, ofBigEndian_bigEndian, Nat.mod_eq_of_lt hlt]
    exact narrow_toUnsigned (by decide) hfits

theorem readInt32_reads (o : ByteOrder) :
    Reads (readInt32 o) (Fits 32) int32Bytes fun _ data => data := by
  intro bs s z bs' s'
  rw [readInt32, (take_reads _ _).bind]
  constructor
  · intro ⟨bytes, bs₁, hl, hbs, hret⟩
    rw [exec_pure] at hret
    obtain ⟨hz, hrest⟩ := Prod.mk.inj hret
    obtain ⟨hfits, hbytes⟩ := (int32_of_bytes hl).mp (Except.ok.inj hz)
    obtain ⟨rfl, rfl⟩ := Prod.mk.inj hrest
    exact ⟨hfits, by rw [hbs, ← hbytes], rfl⟩
  · intro ⟨hfits, hbs, hs⟩
    have hl : (int32Bytes z).length = 4 := length_bigEndian _ _
    refine ⟨int32Bytes z, bs', hl, hbs, ?_⟩
    rw [exec_pure, (int32_of_bytes hl).mpr ⟨hfits, rfl⟩, hs]

theorem readUInt8_reads :
    Reads readUInt8 (fun _ => True) (fun b => [b]) fun _ data => data := by
  intro bs s b bs' s'
  rw [readUInt8, (take_reads _ _).bind]
  constructor
  · intro ⟨bytes, bs₁, hl, hbs, hret⟩
    obtain ⟨x, rfl⟩ := List.length_eq_one_iff.mp hl
    rw [exec_pure] at hret
    cases hret
    exact ⟨trivial, hbs, rfl⟩
  · intro ⟨_, hbs, hs⟩
    refine ⟨[b], bs', rfl, hbs, ?_⟩
    rw [exec_pure, hs]
    rfl

theorem readType_reads (o : ByteOrder) :
    Reads (readType o) (fun ty => Fits 32 ty.gmtoff) LocalType.encode
      fun ty data => { data with localtimes := data.localtimes ++ [ty.localtime] } := by
  intro bs s ty bs' s'
  rw [readType, (readInt32_reads o).bind]
  constructor
  · intro ⟨gmtoff, bs₁, hfits, hbs, hread⟩
    obtain ⟨isdst, bs₂, -, hbs₁, hread⟩ := readUInt8_reads.bind.mp hread
    obtain ⟨abbrind, bs₃, -, hbs₂, hread⟩ := readUInt8_reads.bind.mp hread
    rw [exec_update_bind, exec_pure] at hread
    cases hread
    refine ⟨hfits, ?_, rfl⟩
    rw [hbs, hbs₁, hbs₂, LocalType.encode]
    simp only [List.append_assoc]
  · intro ⟨hfits, hbs, hs⟩
    rw [LocalType.encode, List.append_assoc, List.append_assoc] at hbs
    refine ⟨ty.gmtoff, _, hfits, hbs, ?_⟩
    refine readUInt8_reads.bind.mpr ⟨ty.isdst, _, trivial, rfl, ?_⟩
    refine readUInt8_reads.bind.mpr ⟨ty.abbrind, _, trivial, rfl, ?_⟩
    rw [exec_update_bind, exec_pure, hs]

/-- The entry of the table for a transition. -/
def transitionOf (localtimes : List Localtime) (p : Int × UInt8) : Transition :=
  ⟨p.1, p.1 + (localtimes.getD p.2.toNat default).gmtOffset, p.2.toNat⟩

theorem exec_addTransition (p : Int × UInt8) (bs : List UInt8) (data : Data) :
    exec (addTransition p.1 p.2) (bs, data)
      = if p.2.toNat < data.localtimes.length then
          (.ok (), (bs, { data with
            transitions := data.transitions ++ [transitionOf data.localtimes p] }))
        else (.error (.undefined .localtimes), (bs, data)) := by
  rw [addTransition, exec_state_bind]
  by_cases h : p.2.toNat < data.localtimes.length
  · rw [if_pos h, List.getElem?_eq_getElem h]
    simp only [exec_update, transitionOf, List.getD_eq_getElem?_getD, List.getElem?_eq_getElem h,
      Option.getD_some]
  · rw [if_neg h, List.getElem?_eq_none (by omega)]
    rfl

/-- The transitions are added if their types are there. -/
theorem exec_addTransitions (l : List (Int × UInt8)) (bs : List UInt8) (data : Data)
    (t : List UInt8 × Data) :
    exec (addTransitions l) (bs, data) = (.ok (), t) ↔
      (∀ p ∈ l, p.2.toNat < data.localtimes.length) ∧
        t = (bs, { data with
          transitions := data.transitions ++ l.map (transitionOf data.localtimes) }) := by
  induction l generalizing data with
  | nil =>
      rw [addTransitions, exec_pure]
      simp [eq_comm]
  | cons p l ih =>
      rw [addTransitions, exec_bind, exec_addTransition]
      by_cases h : p.2.toNat < data.localtimes.length
      · rw [if_pos h]
        simp only [ih, List.forall_mem_cons, h, true_and, List.map_cons, List.append_assoc,
          List.singleton_append]
      · rw [if_neg h]
        simp [h]

/-! ## Encodings -/

/-- The content of a zone file: what its sections say, and what the header says of sections that
are not read. -/
structure Content where
  version : UInt8
  reserved : List UInt8
  isgmtcnt : Int
  isstdcnt : Int
  leapcnt : Int
  times : List Int
  localIdxs : List UInt8
  types : List LocalType
  chars : List UInt8
  reserved_length : reserved.length = 15
  isgmtcnt_fits : Fits 32 isgmtcnt
  isstdcnt_fits : Fits 32 isstdcnt
  leapcnt_fits : Fits 32 leapcnt
  times_fit : Fits 32 times.length ∧ ∀ t ∈ times, Fits 32 t
  localIdxs_length : localIdxs.length = times.length
  types_fit : Fits 32 types.length ∧ ∀ ty ∈ types, Fits 32 ty.gmtoff
  chars_fit : Fits 32 chars.length

namespace Content

variable (c : Content)

/-- The sections behind the header. -/
def body : List UInt8 :=
  c.times.flatMap int32Bytes ++ (c.localIdxs.flatMap (fun i => [i]) ++
    (c.types.flatMap LocalType.encode ++ c.chars))

/-- The bytes of the content, if `typecnt` is the number of types that the header gives. -/
def encodeWith (typecnt : Int) : List UInt8 :=
  magic ++ ([c.version] ++ (c.reserved ++ (int32Bytes c.isgmtcnt ++ (int32Bytes c.isstdcnt ++
    (int32Bytes c.leapcnt ++ (int32Bytes c.times.length ++ (int32Bytes typecnt ++
      (int32Bytes c.chars.length ++ c.body))))))))

def encode : List UInt8 := c.encodeWith c.types.length

/-- The tables for the content. -/
def data : Data where
  transitions := (c.times.zip c.localIdxs).map (transitionOf (c.types.map LocalType.localtime))
  localtimes := c.types.map LocalType.localtime
  abbreviation := c.chars

end Content

variable {c : Content} {rest : List UInt8}

theorem foldl_localtimes (types : List LocalType) (data : Data) :
    types.foldl (fun data ty => { data with localtimes := data.localtimes ++ [ty.localtime] }) data
      = { data with localtimes := data.localtimes ++ types.map LocalType.localtime } := by
  induction types generalizing data with
  | nil => simp
  | cons ty types ih => simp [ih]

theorem foldl_same {α σ : Type} (l : List α) (s : σ) : l.foldl (fun s _ => s) s = s := by
  induction l with
  | nil => rfl
  | cons a l ih => exact ih

/-- The file that is an encoding is read. -/
theorem exec_readTables_encode (hidx : ∀ i ∈ c.localIdxs, i.toNat < c.types.length) :
    exec (readTables o) (c.encode ++ rest, Data.empty) = (.ok (), (rest, c.data)) := by
  have htimes : ((c.times.length : Int).toNat) = c.times.length := Int.toNat_natCast _
  have htypes : ((c.types.length : Int).toNat) = c.types.length := Int.toNat_natCast _
  simp only [Content.encode, Content.encodeWith, Content.body, List.append_assoc]
  refine (readBytes_reads 4).bind.mpr ⟨magic, _, rfl, rfl, ?_⟩
  refine (ensure_reads _ _).bind.mpr ⟨(), _, rfl, rfl, ?_⟩
  refine (readBytes_reads 1).bind.mpr ⟨[c.version], _, rfl, rfl, ?_⟩
  refine (readBytes_reads 15).bind.mpr ⟨c.reserved, _, by simp [c.reserved_length], rfl, ?_⟩
  refine (readInt32_reads o).bind.mpr ⟨c.isgmtcnt, _, c.isgmtcnt_fits, rfl, ?_⟩
  refine (readInt32_reads o).bind.mpr ⟨c.isstdcnt, _, c.isstdcnt_fits, rfl, ?_⟩
  refine (readInt32_reads o).bind.mpr ⟨c.leapcnt, _, c.leapcnt_fits, rfl, ?_⟩
  refine (readInt32_reads o).bind.mpr ⟨c.times.length, _, c.times_fit.1, rfl, ?_⟩
  refine (readInt32_reads o).bind.mpr ⟨c.types.length, _, c.types_fit.1, rfl, ?_⟩
  refine (readInt32_reads o).bind.mpr ⟨c.chars.length, _, c.chars_fit, rfl, ?_⟩
  refine (ensure_reads _ _).bind.mpr ⟨(), _, by omega, rfl, ?_⟩
  refine ((readInt32_reads o).many _).bind.mpr
    ⟨c.times, _, ⟨htimes.symm, c.times_fit.2⟩, rfl, ?_⟩
  refine (readUInt8_reads.many _).bind.mpr
    ⟨c.localIdxs, _, ⟨by rw [htimes, c.localIdxs_length], fun _ _ => trivial⟩, rfl, ?_⟩
  refine ((readType_reads o).many _).bind.mpr
    ⟨c.types, _, ⟨htypes.symm, c.types_fit.2⟩, rfl, ?_⟩
  rw [foldl_same, foldl_same, foldl_localtimes]
  refine exec_bind_ok.mpr ⟨(), _, (exec_addTransitions _ _ _ _).mpr ⟨?_, rfl⟩, ?_⟩
  · intro p hp
    simpa [Data.empty] using hidx p.2 (List.of_mem_zip hp).2
  · refine (readBytes_reads _).bind.mpr ⟨c.chars, rest, rfl, rfl, ?_⟩
    rw [exec_update]
    simp only [Data.empty, List.nil_append, Content.data]

theorem ofFile_encode (hidx : ∀ i ∈ c.localIdxs, i.toNat < c.types.length) :
    TimeZone.ofFile o (some (c.encode ++ rest)) = .ok ⟨some c.data⟩ := by
  rw [TimeZone.ofFile, readTimeZoneFile, exec_readTables_encode hidx]
  rfl

/-- A file that is read is an encoding, where a negative number of types stands for none. -/
theorem encode_of_exec {bs : List UInt8} {data : Data}
    (h : exec (readTables o) (bs, Data.empty) = (.ok (), (rest, data))) :
    ∃ (typecnt : Int) (c : Content), Fits 32 typecnt ∧ typecnt.toNat = c.types.length ∧
      bs = c.encodeWith typecnt ++ rest ∧ (∀ i ∈ c.localIdxs, i.toNat < c.types.length) ∧
      data = c.data := by
  obtain ⟨head, b₁, -, rfl, h₁⟩ := (readBytes_reads 4).bind.mp h
  obtain ⟨-, b₂, rfl, rfl, h₂⟩ := (ensure_reads _ _).bind.mp h₁
  obtain ⟨version, b₃, hversion, rfl, h₃⟩ := (readBytes_reads 1).bind.mp h₂
  obtain ⟨reserved, b₄, hreserved, rfl, h₄⟩ := (readBytes_reads 15).bind.mp h₃
  obtain ⟨isgmtcnt, b₅, hisgmtcnt, rfl, h₅⟩ := (readInt32_reads o).bind.mp h₄
  obtain ⟨isstdcnt, b₆, hisstdcnt, rfl, h₆⟩ := (readInt32_reads o).bind.mp h₅
  obtain ⟨leapcnt, b₇, hleapcnt, rfl, h₇⟩ := (readInt32_reads o).bind.mp h₆
  obtain ⟨timecnt, b₈, htimecnt, rfl, h₈⟩ := (readInt32_reads o).bind.mp h₇
  obtain ⟨typecnt, b₉, htypecnt, rfl, h₉⟩ := (readInt32_reads o).bind.mp h₈
  obtain ⟨charcnt, b₁₀, hcharcnt, rfl, h₁₀⟩ := (readInt32_reads o).bind.mp h₉
  obtain ⟨-, b₁₁, hnonneg, rfl, h₁₁⟩ := (ensure_reads _ _).bind.mp h₁₀
  obtain ⟨times, b₁₂, ⟨htimes, htimes'⟩, rfl, h₁₂⟩ := ((readInt32_reads o).many _).bind.mp h₁₁
  obtain ⟨idxs, b₁₃, ⟨hidxs, -⟩, rfl, h₁₃⟩ := (readUInt8_reads.many _).bind.mp h₁₂
  obtain ⟨types, b₁₄, ⟨htypes, htypes'⟩, rfl, h₁₄⟩ := ((readType_reads o).many _).bind.mp h₁₃
  rw [foldl_same, foldl_same, foldl_localtimes] at h₁₄
  obtain ⟨_, t, hadd, h₁₅⟩ := exec_bind_ok.mp h₁₄
  obtain ⟨hvalid, rfl⟩ := (exec_addTransitions _ _ _ _).mp hadd
  obtain ⟨chars, b₁₅, hchars, rfl, h₁₆⟩ := (readBytes_reads _).bind.mp h₁₅
  rw [exec_update] at h₁₆
  cases h₁₆
  obtain ⟨v, rfl⟩ := List.length_eq_one_iff.mp (by omega : version.length = 1)
  have hidx : ∀ i ∈ idxs, i.toNat < types.length := by
    intro i hi
    have hsnd : (times.zip idxs).map Prod.snd = idxs := List.map_snd_zip (by omega)
    rw [← hsnd] at hi
    obtain ⟨p, hp, rfl⟩ := List.mem_map.mp hi
    simpa [Data.empty] using hvalid p hp
  have htimecnt' : timecnt = times.length := by omega
  subst htimecnt'
  subst hchars
  have htypes_fit : Fits 32 types.length := by
    rw [fits_32] at htypecnt ⊢
    omega
  refine ⟨typecnt, ⟨v, reserved, isgmtcnt, isstdcnt, leapcnt, times, idxs, types, chars,
    by omega, hisgmtcnt, hisstdcnt, hleapcnt, ⟨htimecnt, htimes'⟩, by omega,
    ⟨htypes_fit, htypes'⟩, hcharcnt⟩, htypecnt, htypes.symm, ?_, ?_, ?_⟩
  · simp only [Content.encodeWith, Content.body, List.append_assoc]
  · exact hidx
  · simp only [Data.empty, List.nil_append, Content.data]

/-! ## Decoding what has been encoded -/

/-- `readTimeZoneFile` undoes the encoding: the local time types and the characters are those of
the content, and each transition has its time, its local time and its type. -/
theorem readTimeZoneFile_encode (o : ByteOrder) (c : Content) (rest : List UInt8)
    (hidx : ∀ i ∈ c.localIdxs, i.toNat < c.types.length) :
    ∃ data, readTimeZoneFile o (some (c.encode ++ rest)) Data.empty = .ok (true, data) ∧
      data.localtimes
        = c.types.map (fun ty => ⟨ty.gmtoff, decide (ty.isdst ≠ 0), ty.abbrind.toNat⟩) ∧
      data.abbreviation = c.chars ∧ data.transitions.length = c.times.length ∧
      ∀ (i : Nat) (t : Int) (j : UInt8) (ty : LocalType), c.times[i]? = some t →
        c.localIdxs[i]? = some j →
        c.types[j.toNat]? = some ty →
        data.transitions[i]? = some ⟨t, t + ty.gmtoff, j.toNat⟩ := by
  refine ⟨c.data, ?_, rfl, rfl, ?_, ?_⟩
  · rw [readTimeZoneFile, exec_readTables_encode hidx]
  · simp [Content.data, c.localIdxs_length]
  · intro i t j ty ht hj hty
    have hzip : (c.times.zip c.localIdxs)[i]? = some (t, j) := by
      rw [List.getElem?_zip_eq_some]
      exact ⟨ht, hj⟩
    simp [Content.data, hzip, transitionOf, hty, LocalType.localtime]

/-- Ten and a half hours east of Greenwich, with a summer time that began before 1970. -/
def sampleContent : Content where
  version := 50
  reserved := List.replicate 15 0
  isgmtcnt := 0
  isstdcnt := -1
  leapcnt := 0
  times := [-20000000, 0]
  localIdxs := [1, 0]
  types := [⟨37800, 0, 0⟩, ⟨39600, 1, 2⟩]
  chars := [43, 0, 42, 0]
  reserved_length := by decide
  isgmtcnt_fits := by decide
  isstdcnt_fits := by decide
  leapcnt_fits := by decide
  times_fit := by decide
  localIdxs_length := by decide
  types_fit := by decide
  chars_fit := by decide

theorem readTimeZoneFile_sample :
    ∃ data, readTimeZoneFile .little (some (sampleContent.encode ++ [7])) Data.empty
        = .ok (true, data) ∧
      data.localtimes = sampleContent.types.map
        (fun ty => ⟨ty.gmtoff, decide (ty.isdst ≠ 0), ty.abbrind.toNat⟩) ∧
      data.abbreviation = sampleContent.chars ∧
      data.transitions.length = sampleContent.times.length ∧
      ∀ (i : Nat) (t : Int) (j : UInt8) (ty : LocalType), sampleContent.times[i]? = some t →
        sampleContent.localIdxs[i]? = some j →
        sampleContent.types[j.toNat]? = some ty →
        data.transitions[i]? = some ⟨t, t + ty.gmtoff, j.toNat⟩ :=
  readTimeZoneFile_encode .little sampleContent [7] (by simp [sampleContent])

/-! ## Which files are safe -/

/-- Reading the file is defined, and if the zone is valid then its tables are sound, and no
conversion leaves them. -/
def RejectsOrSound (o : ByteOrder) (zonefile : Option (List UInt8)) : Prop :=
  ∃ z, TimeZone.ofFile o zonefile = .ok z ∧ ∀ data, z.data = some data →
    Sound data ∧ ∀ (gmtime : Int → Tm) (timegm : Tm → Int),
      (∀ t, ∃ tm, toLocalTime gmtime data t = .ok tm) ∧
      ∀ tm, ∃ t, fromLocalTime gmtime timegm data tm = .ok t

/-- The file begins with the encoding of a content that has a type, and whose indices are those
of types and characters. -/
def IsZoneFile (zonefile : Option (List UInt8)) : Prop :=
  ∃ (c : Content) (rest : List UInt8), zonefile = some (c.encode ++ rest) ∧ c.types ≠ [] ∧
    (∀ i ∈ c.localIdxs, i.toNat < c.types.length) ∧
    ∀ ty ∈ c.types, ty.abbrind.toNat < c.chars.length

/-- The tables of a content are sound if its indices are right. -/
theorem sound_data_iff (hidx : ∀ i ∈ c.localIdxs, i.toNat < c.types.length) :
    Sound c.data ↔ c.types ≠ [] ∧ ∀ ty ∈ c.types, ty.abbrind.toNat < c.chars.length := by
  constructor
  · intro h
    refine ⟨fun hnil => h.localtimes_ne (by rw [Content.data, hnil]; rfl), ?_⟩
    intro ty hty
    have hlt := h.abbreviation_lt ty.localtime (List.mem_map_of_mem hty)
    simp only [LocalType.localtime, Content.data] at hlt
    omega
  · intro ⟨hne, habbr⟩
    have hchars : ∀ lt ∈ c.data.localtimes,
        0 ≤ lt.arrbIdx ∧ lt.arrbIdx < c.data.abbreviation.length := by
      intro lt hlt
      obtain ⟨ty, hty, rfl⟩ := List.mem_map.mp hlt
      have := habbr ty hty
      simp only [LocalType.localtime, Content.data]
      omega
    refine ⟨⟨by simpa [Content.data] using hne, ?_, ?_⟩, fun lt hlt => (hchars lt hlt).2⟩
    · intro tr htr
      obtain ⟨p, hp, rfl⟩ := List.mem_map.mp htr
      have := hidx p.2 (List.of_mem_zip hp).2
      simp only [transitionOf, Content.data, List.length_map]
      omega
    · intro lt hlt
      exact ⟨(hchars lt hlt).1, (hchars lt hlt).2.le⟩

/-- No statement before the last touches the characters, and the last does not fail. -/
theorem readTables_error (o : ByteOrder) :
    KeepsOnError (fun data : Data => data.abbreviation = []) (readTables o) := by
  have hbytes : ∀ n, Keeps (fun data : Data => data.abbreviation = []) (readBytes n) := fun n =>
    (keeps_ensure _ _).bind fun _ => keeps_take _ _
  have hint : Keeps (fun data : Data => data.abbreviation = []) (readInt32 o) :=
    (keeps_take _ _).bind fun _ => keeps_pure _
  have hbyte : Keeps (fun data : Data => data.abbreviation = []) readUInt8 :=
    (keeps_take _ _).bind fun _ => keeps_pure _
  have htype : Keeps (fun data : Data => data.abbreviation = []) (readType o) := by
    refine hint.bind fun _ => hbyte.bind fun _ => hbyte.bind fun _ => ?_
    exact Keeps.bind (keeps_update fun _ h => h) fun _ => keeps_pure _
  have hadd : ∀ p : Int × UInt8,
      Keeps (fun data : Data => data.abbreviation = []) (addTransition p.1 p.2) := by
    intro p s hs
    rw [exec_addTransition]
    split
    · exact hs
    · exact hs
  have hadds : ∀ l, Keeps (fun data : Data => data.abbreviation = []) (addTransitions l) := by
    intro l
    induction l with
    | nil => exact keeps_pure _
    | cons p l ih => exact (hadd p).bind fun _ => ih
  refine (hbytes 4).bindOnError fun _ => (keeps_ensure _ _).bindOnError fun _ => ?_
  refine (hbytes 1).bindOnError fun _ => (hbytes 15).bindOnError fun _ => ?_
  refine hint.bindOnError fun _ => hint.bindOnError fun _ => hint.bindOnError fun _ => ?_
  refine hint.bindOnError fun _ => hint.bindOnError fun _ => hint.bindOnError fun _ => ?_
  refine (keeps_ensure _ _).bindOnError fun _ => (hint.many _).bindOnError fun _ => ?_
  refine (hbyte.many _).bindOnError fun _ => (htype.many _).bindOnError fun _ => ?_
  exact (hadds _).bindOnError fun _ => (hbytes _).bindOnError fun _ => keepsOnError_update _

/-- Without characters no table is sound. -/
theorem not_sound_of_abbreviation {data : Data} (h : data.abbreviation = []) : ¬ Sound data := by
  intro hs
  obtain ⟨lt, rest, hl⟩ := List.exists_cons_of_ne_nil hs.localtimes_ne
  have hmem : lt ∈ data.localtimes := by simp [hl]
  have h₀ := (hs.abbreviation_idx lt hmem).1
  have h₁ := hs.abbreviation_lt lt hmem
  rw [h] at h₁
  simp only [List.length_nil] at h₁
  omega

/-- The files for which the constructor keeps to it are exactly the well-formed ones. -/
theorem rejectsOrSound_iff (o : ByteOrder) (zonefile : Option (List UInt8)) :
    RejectsOrSound o zonefile ↔ IsZoneFile zonefile := by
  constructor
  · intro ⟨z, hz, hsafe⟩
    cases zonefile with
    | none =>
        -- the tables of a missing file are empty
        cases hz
        exact absurd rfl (hsafe _ rfl).1.localtimes_ne
    | some bs =>
        rw [TimeZone.ofFile, readTimeZoneFile] at hz
        cases hexec : exec (readTables o) (bs, Data.empty) with
        | mk r t =>
            obtain ⟨rest, data⟩ := t
            rw [hexec] at hz
            cases r with
            | ok u =>
                cases hz
                obtain ⟨typecnt, c, -, hcnt, hbs, hidx, rfl⟩ := encode_of_exec hexec
                obtain ⟨hne, habbr⟩ := (sound_data_iff hidx).mp (hsafe _ rfl).1
                have hpos := List.length_pos_of_ne_nil hne
                have htypecnt : typecnt = c.types.length := by omega
                rw [htypecnt] at hbs
                exact ⟨c, rest, congrArg some hbs, hne, hidx, habbr⟩
            | error stop =>
                cases stop with
                | logicError what =>
                    cases hz
                    have hempty := readTables_error o _ rfl _ _ hexec
                    exact absurd (hsafe _ rfl).1 (not_sound_of_abbreviation hempty)
                | undefined fault => cases hz
  · intro ⟨c, rest, hfile, hne, hidx, habbr⟩
    have hsound := (sound_data_iff hidx).mpr ⟨hne, habbr⟩
    refine ⟨⟨some c.data⟩, ?_, ?_⟩
    · rw [hfile, ofFile_encode hidx]
    · intro data hdata
      cases hdata
      refine ⟨hsound, fun gmtime timegm => ⟨?_, ?_⟩⟩
      · intro t
        exact toLocalTime_ok hsound.toIndexed t
      · intro tm
        exact fromLocalTime_ok hsound.toIndexed tm

/-- A file that cannot be opened gives a valid zone without tables. -/
theorem rejectsOrSound_missing : ¬ RejectsOrSound .little none := by
  intro ⟨z, hz, hsafe⟩
  cases hz
  exact (hsafe _ rfl).1.localtimes_ne rfl

end Zing.Base
