import Cowrie.Struct

/-!
# The recording of a terminal (`src/cowrie/core/ttylog.py`)

A recording is a file of records: a header of six little-endian numbers (`TTYSTRUCT`) and, for a write,
the data. There is no mark between records, so that a reader depends on every length before.

* A stamp is the pair of numbers that the code makes of a `float`: seconds and microseconds.
* `none` is an exception of the writer: a `struct.error` for a number that does not fit.
* `ttylog_inputhash` reads until a header is short (`readRecords`); every record has `ssize` bytes at
  least, so the length of the file bounds their number.

`readRecords_encodes`: what is read is what was written. **`ttylog_roundTrip`**: so it is of a session,
and the digest is that of the writes that are not output.
-/

namespace Cowrie.TtyLog

/-! ## Little-endian fields -/

/-- `L`. -/
def packLong (n : Int) : Option Bytes := (packUInt 4 n).map List.reverse

def unpackLong (b : Bytes) : Int := intFromBytes b.reverse

/-- `i`, in two's complement. -/
def packInt (n : Int) : Option Bytes :=
  if -2 ^ 31 ≤ n ∧ n < 2 ^ 31 then packLong (n % 2 ^ 32) else none

def unpackInt (b : Bytes) : Int :=
  if unpackLong b < 2 ^ 31 then unpackLong b else unpackLong b - 2 ^ 32

theorem packLong_spec {n : Int} (h : 0 ≤ n ∧ n < 2 ^ 32) :
    ∃ b, packLong n = some b ∧ b.length = 4 ∧ unpackLong b = n := by
  refine ⟨(intToBytes 4 n.toNat).reverse, ?_, ?_, ?_⟩
  · unfold packLong packUInt
    rw [if_pos (by norm_num; exact h)]
    rfl
  · rw [List.length_reverse, intToBytes_length]
  · unfold unpackLong
    rw [List.reverse_reverse, intFromBytes_intToBytes, Nat.mod_eq_of_lt (by omega)]
    omega

theorem packInt_spec {n : Int} (h : -2 ^ 31 ≤ n ∧ n < 2 ^ 31) :
    ∃ b, packInt n = some b ∧ b.length = 4 ∧ unpackInt b = n := by
  obtain ⟨b, hpack, hlen, hunpack⟩ := packLong_spec (n := n % 2 ^ 32) (by omega)
  refine ⟨b, ?_, hlen, ?_⟩
  · unfold packInt
    rw [if_pos h, hpack]
  · unfold unpackInt
    rw [hunpack]
    split_ifs <;> omega

/-! ## The file -/

/-- `OP_OPEN`, `OP_CLOSE` and `OP_WRITE`. -/
def opOpen : Int := 1
def opClose : Int := 2
def opWrite : Int := 3

/-- `TYPE_INPUT`, `TYPE_OUTPUT` and `TYPE_INTERACT`. -/
def typeInput : Int := 1
def typeOutput : Int := 2
def typeInteract : Int := 3

structure Stamp where
  sec : Int
  usec : Int
  deriving DecidableEq, Repr

/-- The fields of `TTYSTRUCT`, `<iLiiLL`. -/
structure Header where
  op : Int
  tty : Int
  length : Int
  direction : Int
  stamp : Stamp
  deriving DecidableEq, Repr

/-- `struct.calcsize(TTYSTRUCT)`. -/
def ssize : Nat := 24

/-- `struct.pack(TTYSTRUCT, ...)`. -/
def Header.pack (h : Header) : Option Bytes := do
  return (← packInt h.op) ++ (← packLong h.tty) ++ (← packInt h.length) ++ (← packInt h.direction) ++
    (← packLong h.stamp.sec) ++ (← packLong h.stamp.usec)

/-- `struct.unpack(TTYSTRUCT, b)`. -/
def Header.unpack (b : Bytes) : Option Header :=
  if b.length = ssize then
    some {
      op := unpackInt (b.take 4)
      tty := unpackLong ((b.drop 4).take 4)
      length := unpackInt ((b.drop 8).take 4)
      direction := unpackInt ((b.drop 12).take 4)
      stamp := ⟨unpackLong ((b.drop 16).take 4), unpackLong (b.drop 20)⟩ }
  else none

/-- `ttylog_open`. -/
def ttylogOpen (stamp : Stamp) (file : Bytes) : Option Bytes := do
  return file ++ (← Header.pack ⟨opOpen, 0, 0, 0, stamp⟩)

/-- `ttylog_write`. -/
def ttylogWrite (length : Int) (direction : Int) (stamp : Stamp) (data : Bytes) (file : Bytes) :
    Option Bytes := do
  return file ++ (← Header.pack ⟨opWrite, 0, length, direction, stamp⟩) ++ data

/-- `ttylog_close`. -/
def ttylogClose (stamp : Stamp) (file : Bytes) : Option Bytes := do
  return file ++ (← Header.pack ⟨opClose, 0, 0, 0, stamp⟩)

/-- A record as it is read. -/
structure Record where
  header : Header
  data : Bytes
  deriving DecidableEq, Repr

/-- `fd.read(n)`, and what is left; `none` is the `ValueError` for a negative length other than -1. -/
def readData (n : Int) (file : Bytes) : Option (Bytes × Bytes) :=
  if 0 ≤ n then some (file.take n.toNat, file.drop n.toNat)
  else if n = -1 then some (file, [])
  else none

/-- The loop of `ttylog_inputhash`. -/
def readRecords : Nat → Bytes → Option (List Record)
  | 0, _ => some []
  | fuel + 1, file =>
    match Header.unpack (file.take ssize) with
    | none => some []
    | some header => do
      let (data, rest) ← readData header.length (file.drop ssize)
      return ⟨header, data⟩ :: (← readRecords fuel rest)

/-- All records of a file. -/
def records (file : Bytes) : Option (List Record) := readRecords (file.length + 1) file

/-- What a record adds to `inputbytes`. -/
def Record.input (r : Record) : Bytes :=
  if r.header.op = opWrite ∧ r.header.direction = typeOutput then [] else r.data

/-- `ttylog_inputhash`. -/
def ttylogInputhash (sha256 : Bytes → String) (file : Bytes) : Option String := do
  return sha256 ((← records file).flatMap Record.input)

/-! ## Reading what was written -/

/-- Every field has room. -/
structure Header.Fits (h : Header) : Prop where
  op : -2 ^ 31 ≤ h.op ∧ h.op < 2 ^ 31
  tty : 0 ≤ h.tty ∧ h.tty < 2 ^ 32
  length : -2 ^ 31 ≤ h.length ∧ h.length < 2 ^ 31
  direction : -2 ^ 31 ≤ h.direction ∧ h.direction < 2 ^ 31
  sec : 0 ≤ h.stamp.sec ∧ h.stamp.sec < 2 ^ 32
  usec : 0 ≤ h.stamp.usec ∧ h.stamp.usec < 2 ^ 32

/-- The parts of a concatenation of fields of four bytes. -/
theorem take_drop_field {a b c : Bytes} {n : Nat} (ha : a.length = n) (hb : b.length = 4) :
    ((a ++ b ++ c).drop n).take 4 = b := by
  rw [List.append_assoc, List.drop_left' ha, List.take_left' hb]

theorem Header.pack_spec {h : Header} (hfits : h.Fits) :
    ∃ b, h.pack = some b ∧ b.length = ssize ∧ Header.unpack b = some h := by
  obtain ⟨op, hop, hopl, hopu⟩ := packInt_spec hfits.op
  obtain ⟨tty, htty, httyl, httyu⟩ := packLong_spec hfits.tty
  obtain ⟨len, hlen, hlenl, hlenu⟩ := packInt_spec hfits.length
  obtain ⟨dir, hdir, hdirl, hdiru⟩ := packInt_spec hfits.direction
  obtain ⟨sec, hsec, hsecl, hsecu⟩ := packLong_spec hfits.sec
  obtain ⟨usec, husec, husecl, husecu⟩ := packLong_spec hfits.usec
  have hsize : (op ++ tty ++ len ++ dir ++ sec ++ usec).length = ssize := by
    simp only [List.length_append, hopl, httyl, hlenl, hdirl, hsecl, husecl]
    rfl
  refine ⟨op ++ tty ++ len ++ dir ++ sec ++ usec, ?_, hsize, ?_⟩
  · unfold Header.pack
    rw [hop, htty, hlen, hdir, hsec, husec]
    rfl
  · have h₀ : (op ++ tty ++ len ++ dir ++ sec ++ usec).take 4 = op := by
      simp only [List.append_assoc]
      exact List.take_left' hopl
    have h₁ : ((op ++ tty ++ len ++ dir ++ sec ++ usec).drop 4).take 4 = tty := by
      rw [show op ++ tty ++ len ++ dir ++ sec ++ usec = op ++ tty ++ (len ++ dir ++ sec ++ usec) by simp]
      exact take_drop_field hopl httyl
    have h₂ : ((op ++ tty ++ len ++ dir ++ sec ++ usec).drop 8).take 4 = len := by
      rw [show op ++ tty ++ len ++ dir ++ sec ++ usec = op ++ tty ++ len ++ (dir ++ sec ++ usec) by simp]
      exact take_drop_field (by simp [hopl, httyl]) hlenl
    have h₃ : ((op ++ tty ++ len ++ dir ++ sec ++ usec).drop 12).take 4 = dir := by
      rw [show op ++ tty ++ len ++ dir ++ sec ++ usec = op ++ tty ++ len ++ dir ++ (sec ++ usec) by simp]
      exact take_drop_field (by simp [hopl, httyl, hlenl]) hdirl
    have h₄ : ((op ++ tty ++ len ++ dir ++ sec ++ usec).drop 16).take 4 = sec :=
      take_drop_field (by simp [hopl, httyl, hlenl, hdirl]) hsecl
    have h₅ : (op ++ tty ++ len ++ dir ++ sec ++ usec).drop 20 = usec :=
      List.drop_left' (by simp [hopl, httyl, hlenl, hdirl, hsecl])
    unfold Header.unpack
    rw [if_pos hsize, h₀, h₁, h₂, h₃, h₄, h₅, hopu, httyu, hlenu, hdiru, hsecu, husecu]

/-- The bytes of some records. -/
def Encodes : List Record → Bytes → Prop
  | [], b => b = []
  | r :: rs, b => ∃ header rest, r.header.pack = some header ∧ Encodes rs rest ∧ b = header ++ r.data ++ rest

/-- The record can be written, and its length is that of its data. -/
structure Record.Fits (r : Record) : Prop where
  header : r.header.Fits
  length : r.header.length = r.data.length

theorem encodes_append {rs rs' : List Record} {b b' : Bytes} (h : Encodes rs b) (h' : Encodes rs' b') :
    Encodes (rs ++ rs') (b ++ b') := by
  induction rs generalizing b with
  | nil =>
    obtain rfl := h
    exact h'
  | cons r rs ih =>
    obtain ⟨header, rest, hpack, hrest, rfl⟩ := h
    exact ⟨header, rest ++ b', hpack, ih hrest, by simp only [List.append_assoc]⟩

/-- The end of the file is too short for a header. -/
theorem readRecords_nil (fuel : Nat) : readRecords fuel [] = some [] := by
  cases fuel <;> rfl

/-- **Reading record by record gives the records.** -/
theorem readRecords_encodes {rs : List Record} {b : Bytes} {fuel : Nat} (hfits : ∀ r ∈ rs, r.Fits)
    (h : Encodes rs b) (hfuel : b.length < fuel) : readRecords fuel b = some rs := by
  induction rs generalizing b fuel with
  | nil =>
    obtain rfl := h
    exact readRecords_nil fuel
  | cons r rs ih =>
    obtain ⟨hr, hrs⟩ := List.forall_mem_cons.mp hfits
    obtain ⟨header, rest, hpack, hrest, rfl⟩ := h
    obtain ⟨header', hpack', hlength, hunpack⟩ := Header.pack_spec hr.header
    obtain rfl := Option.some.inj (hpack.symm.trans hpack')
    obtain ⟨fuel, rfl⟩ : ∃ k, fuel = k + 1 := ⟨fuel - 1, by omega⟩
    have htake : (header ++ r.data ++ rest).take ssize = header := by
      rw [List.append_assoc, List.take_left' hlength]
    have hdrop : (header ++ r.data ++ rest).drop ssize = r.data ++ rest := by
      rw [List.append_assoc, List.drop_left' hlength]
    have hread : readData r.header.length (r.data ++ rest) = some (r.data, rest) := by
      unfold readData
      rw [hr.length, if_pos (Int.natCast_nonneg _), Int.toNat_natCast, List.take_left, List.drop_left]
    have hless : rest.length < fuel := by
      simp only [List.length_append, hlength] at hfuel
      unfold ssize at hfuel
      omega
    unfold readRecords
    rw [htake, hunpack]
    simp only [hdrop, hread, ih hrs hrest hless, Option.bind_eq_bind, Option.bind_some]
    rfl

/-! ## A session -/

/-- The arguments of a call of `ttylog_write`. -/
structure Write where
  direction : Int
  stamp : Stamp
  data : Bytes
  deriving DecidableEq, Repr

/-- One `ttylog_open`, the writes and one `ttylog_close`. -/
def session (start : Stamp) (writes : List Write) (close : Stamp) : Option Bytes := do
  let file ← ttylogOpen start []
  let file ← writes.foldlM (fun file w => ttylogWrite w.data.length w.direction w.stamp w.data file) file
  ttylogClose close file

/-- A `time.time()` that the format can hold. -/
structure Stamp.Fits (s : Stamp) : Prop where
  sec : 0 ≤ s.sec ∧ s.sec < 2 ^ 32
  usec : 0 ≤ s.usec ∧ s.usec < 2 ^ 32

/-- The write fits: its stamp, its direction (a C `int`) and its length. -/
structure Write.Fits (w : Write) : Prop where
  direction : -2 ^ 31 ≤ w.direction ∧ w.direction < 2 ^ 31
  stamp : w.stamp.Fits
  length : w.data.length < 2 ^ 31

def Write.record (w : Write) : Record := ⟨⟨opWrite, 0, w.data.length, w.direction, w.stamp⟩, w.data⟩

/-- A record without data. -/
def markRecord (op : Int) (stamp : Stamp) : Record := ⟨⟨op, 0, 0, 0, stamp⟩, []⟩

/-- The records of a session. -/
def sessionRecords (start : Stamp) (writes : List Write) (close : Stamp) : List Record :=
  markRecord opOpen start :: writes.map Write.record ++ [markRecord opClose close]

theorem Write.fits_record {w : Write} (h : w.Fits) : w.record.Fits where
  header := by
    obtain ⟨hdirection, hstamp, hlength⟩ := h
    refine ⟨⟨?_, ?_⟩, ⟨?_, ?_⟩, ⟨?_, ?_⟩, hdirection, hstamp.sec, hstamp.usec⟩ <;>
      simp only [Write.record, opWrite] <;> omega
  length := rfl

theorem fits_markRecord {op : Int} {stamp : Stamp} (hop : -2 ^ 31 ≤ op ∧ op < 2 ^ 31) (h : stamp.Fits) :
    (markRecord op stamp).Fits where
  header := by
    refine ⟨hop, ⟨?_, ?_⟩, ⟨?_, ?_⟩, ⟨?_, ?_⟩, h.sec, h.usec⟩ <;>
      simp only [markRecord] <;> omega
  length := rfl

/-- A record that is appended. -/
theorem encodes_record {r : Record} (h : r.Fits) :
    ∃ header, r.header.pack = some header ∧ Encodes [r] (header ++ r.data) := by
  obtain ⟨header, hpack, -, -⟩ := Header.pack_spec h.header
  exact ⟨header, hpack, header, [], hpack, rfl, (List.append_nil _).symm⟩

theorem writes_encode {writes : List Write} (h : ∀ w ∈ writes, w.Fits) (file : Bytes) :
    ∃ b, writes.foldlM (fun file w => ttylogWrite w.data.length w.direction w.stamp w.data file) file =
      some (file ++ b) ∧ Encodes (writes.map Write.record) b := by
  induction writes generalizing file with
  | nil => exact ⟨[], by rw [List.append_nil]; rfl, rfl⟩
  | cons w writes ih =>
    obtain ⟨hw, hwrites⟩ := List.forall_mem_cons.mp h
    obtain ⟨header, hpack, hfirst⟩ := encodes_record (Write.fits_record hw)
    obtain ⟨b, hfold, hrest⟩ := ih hwrites (file ++ header ++ w.data)
    have hwrite : ttylogWrite w.data.length w.direction w.stamp w.data file =
        some (file ++ header ++ w.data) := by
      unfold ttylogWrite
      rw [show Header.pack ⟨opWrite, 0, w.data.length, w.direction, w.stamp⟩ = some header from hpack]
      rfl
    refine ⟨header ++ w.data ++ b, ?_, encodes_append hfirst hrest⟩
    rw [List.foldlM_cons, hwrite, Option.bind_eq_bind, Option.bind_some, hfold]
    simp only [List.append_assoc]

/-- **A session that fits is written**, one record after the other. -/
theorem session_encodes {start close : Stamp} {writes : List Write} (hstart : start.Fits)
    (hclose : close.Fits) (h : ∀ w ∈ writes, w.Fits) :
    ∃ file, session start writes close = some file ∧ Encodes (sessionRecords start writes close) file := by
  have hfits : (markRecord opOpen start).Fits := fits_markRecord (by decide) hstart
  have hfits' : (markRecord opClose close).Fits := fits_markRecord (by decide) hclose
  obtain ⟨opened, hopen, hfirst⟩ := encodes_record hfits
  obtain ⟨closed, hshut, hlast⟩ := encodes_record hfits'
  obtain ⟨b, hfold, hmiddle⟩ := writes_encode h opened
  refine ⟨opened ++ b ++ closed, ?_, ?_⟩
  · unfold session ttylogOpen ttylogClose
    rw [show Header.pack ⟨opOpen, 0, 0, 0, start⟩ = some opened from hopen,
      show Header.pack ⟨opClose, 0, 0, 0, close⟩ = some closed from hshut]
    simp only [Option.bind_eq_bind, Option.bind_some, Option.pure_def, List.nil_append, hfold]
  · have hmarks : opened ++ b ++ closed = opened ++ [] ++ (b ++ (closed ++ [])) := by simp
    have hlater := encodes_append hmiddle hlast
    have hall := encodes_append hfirst hlater
    rw [hmarks]
    exact hall

theorem fits_sessionRecords {start close : Stamp} {writes : List Write} (hstart : start.Fits)
    (hclose : close.Fits) (h : ∀ w ∈ writes, w.Fits) :
    ∀ r ∈ sessionRecords start writes close, r.Fits := by
  intro r hr
  unfold sessionRecords at hr
  rw [List.cons_append] at hr
  rcases List.mem_cons.mp hr with rfl | hr
  · exact fits_markRecord (by decide) hstart
  · rcases List.mem_append.mp hr with hr | hr
    · obtain ⟨w, hw, rfl⟩ := List.mem_map.mp hr
      exact Write.fits_record (h w hw)
    · obtain rfl := List.mem_singleton.mp hr
      exact fits_markRecord (by decide) hclose

/-- **The records of a session are read back.** -/
theorem records_session {start close : Stamp} {writes : List Write} (hstart : start.Fits) (hclose : close.Fits)
    (h : ∀ w ∈ writes, w.Fits) :
    ∃ file, session start writes close = some file ∧ records file = some (sessionRecords start writes close) := by
  obtain ⟨file, hfile, hencodes⟩ := session_encodes hstart hclose h
  exact ⟨file, hfile, readRecords_encodes (fits_sessionRecords hstart hclose h) hencodes (Nat.lt_succ_self _)⟩

/-- The data of the writes that are not output. -/
def notOutput (writes : List Write) : Bytes :=
  (writes.filter fun w => w.direction ≠ typeOutput).flatMap Write.data

theorem input_sessionRecords (start close : Stamp) (writes : List Write) :
    (sessionRecords start writes close).flatMap Record.input = notOutput writes := by
  have hmark : ∀ op stamp, (markRecord op stamp).input = [] := fun op stamp => by
    unfold Record.input
    split_ifs <;> rfl
  have hwrites : (writes.map Write.record).flatMap Record.input = notOutput writes := by
    unfold notOutput
    induction writes with
    | nil => rfl
    | cons w writes ih =>
      rw [List.map_cons, List.flatMap_cons, ih, List.filter_cons]
      by_cases hout : w.direction = typeOutput
      · rw [if_neg (by simpa using hout)]
        unfold Record.input
        rw [if_pos ⟨rfl, hout⟩, List.nil_append]
      · rw [if_pos (by simpa using hout), List.flatMap_cons]
        unfold Record.input
        rw [if_neg fun h => hout h.2]
        rfl
  unfold sessionRecords
  rw [List.cons_append, List.flatMap_cons, List.flatMap_append, hmark, hwrites, List.flatMap_cons, hmark]
  simp

/-- **A recording is read back as it was written**, and hashed without its output. -/
theorem ttylog_roundTrip (sha256 : Bytes → String) {start close : Stamp} {writes : List Write}
    (hstart : start.Fits) (hclose : close.Fits) (h : ∀ w ∈ writes, w.Fits) :
    ∃ file, session start writes close = some file ∧
      records file = some (sessionRecords start writes close) ∧
      ttylogInputhash sha256 file = some (sha256 (notOutput writes)) := by
  obtain ⟨file, hfile, hread⟩ := records_session hstart hclose h
  refine ⟨file, hfile, hread, ?_⟩
  unfold ttylogInputhash
  rw [hread, Option.bind_eq_bind, Option.bind_some, input_sessionRecords]
  rfl

/-- `id` typed, and what it prints. -/
theorem ttylog_roundTrip_id :
    ∃ file, session ⟨1, 0⟩ [⟨typeInput, ⟨2, 5⟩, encode "id"⟩, ⟨typeOutput, ⟨2, 9⟩, encode "uid=0"⟩] ⟨3, 0⟩ =
        some file ∧
      records file = some (sessionRecords ⟨1, 0⟩
        [⟨typeInput, ⟨2, 5⟩, encode "id"⟩, ⟨typeOutput, ⟨2, 9⟩, encode "uid=0"⟩] ⟨3, 0⟩) ∧
      ttylogInputhash (fun b => (decode b).getD "") file = some "id" := by
  refine ttylog_roundTrip (fun b => (decode b).getD "") ⟨by decide, by decide⟩ ⟨by decide, by decide⟩ ?_
  intro w hw
  simp only [List.mem_cons, List.not_mem_nil, or_false] at hw
  rcases hw with rfl | rfl
  · exact ⟨by decide, ⟨by decide, by decide⟩, by decide⟩
  · exact ⟨by decide, ⟨by decide, by decide⟩, by decide⟩

end Cowrie.TtyLog
