import Exec09.Foundation.Scanf
import Exec09.Foundation.Word

/-! # Image files

`load_image` tells S-records from Intel hex records by the first header and hands
the file to `load_s19` or `load_hex`. These are one loop over the records, for two
formats: a header, then data bytes up to the count of the header, then a checksum.
A file is the text that has not been read yet.
-/
namespace Exec09.Loader
open Foundation Text

/-- A call of `write8`, with the text that its value was read from. -/
structure Store where
  addr : ℕ
  value : BitVec 8
  source : Text
  deriving DecidableEq, Repr

/-- The messages of the loaders, after the number of the line. -/
inductive Message
  | invalidRecord
  | inconsistent
  | checksum
  | unsupported (type : ℕ)
  deriving DecidableEq, Repr

/-- The state of a loader. -/
structure Load where
  input : Text
  /-- The variable that `%2x` assigns, which starts with whatever is on the stack. -/
  data : ℕ
  stores : List Store
  messages : List (ℕ × Message)
  /-- How often the body of a loop has been entered. -/
  iterations : ℕ
  deriving DecidableEq, Repr

def Load.report (line : ℕ) (m : Message) (s : Load) : Load :=
  { s with messages := s.messages ++ [(line, m)] }

/-- What `load_s19` and `load_hex` do differently. -/
structure Format where
  header : List Directive
  /-- The type, the count and the address, if all three have been converted. -/
  fields : List ℕ → Option (ℕ × ℕ × ℕ)
  dataType : ℕ
  endType : ℕ
  /-- The number of data bytes under a count. -/
  dataCount : ℕ → ℕ
  /-- The checksum of the header. -/
  start : ℕ → ℕ → ℕ → ℕ
  /-- The last byte of a record, for the checksum of the others. -/
  close : ℕ → ℕ

/-- `"S%1x%2x%4x"`. -/
def s19 : Format where
  header := [.literal 83, .hex 1, .hex 2, .hex 4]
  fields
    | [type, count, addr] => some (type, count, addr)
    | _ => none
  dataType := 1
  endType := 9
  dataCount count := Word.sub 32 count 3
  start _ count addr := Word.trunc 32 (count + (addr >>> 8) + (addr &&& 0xff))
  close checksum := Word.compl 32 checksum &&& 0xff

/-- `":%2x%4x%2x"`. -/
def hex : Format where
  header := [.literal 58, .hex 2, .hex 4, .hex 2]
  fields
    | [count, addr, type] => some (type, count, addr)
    | _ => none
  dataType := 0
  endType := 1
  dataCount count := count
  start type count addr := Word.trunc 32 (count + (addr >>> 8) + (addr &&& 0xff) + type)
  close checksum := Word.sub 32 0 checksum &&& 0xff

/-- The loop over the data bytes of a record: the checksum after it. -/
def loadData (line : ℕ) : ℕ → ℕ → ℕ → Load → ℕ × Load
  | 0, _, checksum, s => (checksum, s)
  | count + 1, addr, checksum, s =>
    let r := scanf [.hex 2] s.input
    let s' := { s with
      input := r.rest
      data := r.values.headD s.data
      iterations := s.iterations + 1 }
    -- At the end of the file the result is -1, and `data` is the value of before.
    if r.result ≠ 0 then
      loadData line count (Word.trunc 32 (addr + 1)) (Word.trunc 32 (checksum + s'.data))
        { s' with stores := s.stores ++ [⟨addr, BitVec.ofNat 8 s'.data, s.input⟩] }
    else (checksum, s'.report line .inconsistent)

section Data
variable {line count addr checksum : ℕ} {s : Load} {u : Text}

/-- The state after a round that has called `write8`. -/
def Load.stored (s : Load) (addr v : ℕ) (u : Text) : Load :=
  { s with
    input := u
    data := v
    iterations := s.iterations + 1
    stores := s.stores ++ [⟨addr, BitVec.ofNat 8 v, s.input⟩] }

theorem loadData_value {v : ℕ} (h : scanf [.hex 2] s.input = ⟨[v], none, u⟩) :
    loadData line (count + 1) addr checksum s =
      loadData line count (Word.trunc 32 (addr + 1)) (Word.trunc 32 (checksum + v))
        (s.stored addr v u) := by
  rw [loadData, h]
  exact if_pos (by simp [Scanned.result])

/-- At the end of the file the byte of before is stored again. -/
theorem loadData_eof (h : scanf [.hex 2] s.input = ⟨[], some .eof, u⟩) :
    loadData line (count + 1) addr checksum s =
      loadData line count (Word.trunc 32 (addr + 1)) (Word.trunc 32 (checksum + s.data))
        (s.stored addr s.data u) := by
  rw [loadData, h]
  exact if_pos (by simp [Scanned.result])

theorem loadData_mismatch (h : scanf [.hex 2] s.input = ⟨[], some .mismatch, u⟩) :
    loadData line (count + 1) addr checksum s =
      (checksum, Load.report line .inconsistent
        { s with
          input := u
          iterations := s.iterations + 1 }) := by
  rw [loadData, h]
  exact if_neg (by simp [Scanned.result])

end Data

/-- The last byte of a record is compared. -/
def readChecksum (line checksum : ℕ) (s : Load) : Bool × Load :=
  let r := scanf [.hex 2] s.input
  let s' := { s with
    input := r.rest
    data := r.values.headD s.data }
  if r.result ≠ 1 ∨ s'.data ≠ checksum then (false, s'.report line .checksum) else (true, s')

/-- Skip any form of line ending. -/
def skipLineEnding (s : Load) : Load :=
  { s with input := (scanf [.discard [13, 10]] s.input).rest }

/-- The loop over the records, `none` if it needs more rounds than this. -/
def Format.loadRecords (f : Format) : ℕ → ℕ → Load → Option Load
  | 0, _, _ => none
  | fuel + 1, line, s =>
    let line := line + 1
    let r := scanf f.header s.input
    let s := { s with
      input := r.rest
      iterations := s.iterations + 1 }
    match f.fields r.values with
    | none => some (s.report line .invalidRecord)
    | some (type, count, addr) =>
      let checksum := f.start type count addr
      if type = f.dataType then
        let (checksum, s) := loadData line (f.dataCount count) addr checksum s
        let (ok, s) := readChecksum line (f.close checksum) s
        if ok then f.loadRecords fuel line (skipLineEnding s) else some s
      else if type = f.endType then some (readChecksum line (f.close checksum) s).2
      else some (s.report line (.unsupported type))

section Records
variable {f : Format} {fuel line type count addr : ℕ} {s : Load}

/-- The state after the header of a record. -/
def Format.headed (f : Format) (s : Load) : Load :=
  { s with
    input := (scanf f.header s.input).rest
    iterations := s.iterations + 1 }

theorem loadRecords_invalid (h : f.fields (scanf f.header s.input).values = none) :
    f.loadRecords (fuel + 1) line s =
      some ((f.headed s).report (line + 1) .invalidRecord) := by
  simp only [Format.loadRecords, h]
  rfl

theorem loadRecords_data
    (h : f.fields (scanf f.header s.input).values = some (f.dataType, count, addr)) :
    f.loadRecords (fuel + 1) line s =
      let p := loadData (line + 1) (f.dataCount count) addr (f.start f.dataType count addr)
        (f.headed s)
      let q := readChecksum (line + 1) (f.close p.1) p.2
      if q.1 then f.loadRecords fuel (line + 1) (skipLineEnding q.2) else some q.2 := by
  simp only [Format.loadRecords, h, if_true]
  rfl

theorem loadRecords_other
    (h : f.fields (scanf f.header s.input).values = some (type, count, addr))
    (hdata : type ≠ f.dataType) :
    f.loadRecords (fuel + 1) line s =
      if type = f.endType then
        some (readChecksum (line + 1) (f.close (f.start type count addr)) (f.headed s)).2
      else some ((f.headed s).report (line + 1) (.unsupported type)) := by
  simp only [Format.loadRecords, h, if_neg hdata]
  rfl

end Records

/-- Each round but the last takes a byte of the file at least. -/
def Format.load (f : Format) (data : ℕ) (file : Text) : Option Load :=
  f.loadRecords (file.length + 1) 0 ⟨file, data, [], [], 0⟩

def loadS19 : ℕ → Text → Option Load := s19.load
def loadHex : ℕ → Text → Option Load := hex.load

/-- The way `load_image` ends. -/
inductive Loaded
  | notOpened
  | unrecognised
  | s19 (r : Option Load)
  | hex (r : Option Load)

def Loaded.code : Loaded → ℕ
  | notOpened | unrecognised => 1
  | s19 _ | hex _ => 0

/-- The second header is looked for where the first attempt has stopped. -/
def loadImage (data : ℕ) : Option Text → Loaded
  | none => .notOpened
  | some file =>
    let r := scanf s19.header file
    if r.result = 3 then .s19 (loadS19 data file)
    else
      let r := scanf Loader.hex.header r.rest
      if r.result = 3 then .hex (loadHex data file)
      else .unrecognised

end Exec09.Loader
