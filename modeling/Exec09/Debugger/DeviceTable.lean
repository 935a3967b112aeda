import Exec09.Debugger.Assignments
import Exec09.Debugger.CommandLine
import Exec09.Bus.Setup

/-! # Indexes into the device table

An absolute address carries the number of a device in its upper bits. The
debugger reads at such an address through `find_device`, which checks the
number, but it writes there and describes the map without a check.
-/
namespace Exec09.Debugger
open Foundation
variable {σ : Type}

structure Datatype where
  format : U8
  size : BitVec 32
  deriving DecidableEq, Repr

/-- A program that reads bytes at absolute addresses, and goes on as these say. -/
inductive Reads (α : Type)
  | done (a : α)
  | read (addr : BitVec 64) (k : U8 → Reads α)

/-- What the debugger uses beside the board. The state of the processor and the symbols are in
the private data. -/
class Surroundings (σ : Type) where
  hardware : Hardware σ
  getPc : Board σ → U16
  getS : Board σ → BitVec 32
  setS : BitVec 32 → BoardM σ Unit
  getCc : Board σ → BitVec 32
  setCc : BitVec 32 → BoardM σ Unit
  setPc : BitVec 32 → BoardM σ Unit
  readVirtual : Text → Option (BoardM σ (BitVec 64))
  writeVirtual : Text → Option (BitVec 64 → BoardM σ Unit)
  symbol : Text → Board σ → Option (BitVec 64)
  symSet : Text → BitVec 64 → BoardM σ Unit
  dasm : BitVec 64 → Reads (BitVec 32)
  /-- The other handlers. -/
  rest : Handler → Option (BitVec 64) → List Text → BoardM σ Unit

/-- The board with the variables of `examine` and `list`. -/
structure Emulator (σ : Type) where
  board : Board σ
  examineAddr : BitVec 64
  examineRepeat : BitVec 32
  examineType : Datatype
  lastpc : BitVec 64
  lastaddr : BitVec 64
  /-- The indexes so far, each with the number of devices at its time. -/
  indexed : List (ℕ × ℕ)

abbrev EmulatorM (σ : Type) := EStateM Stop (Emulator σ)

/-- Every index was the number of a device. -/
def Emulator.Sound (t : Emulator σ) : Prop := ∀ e ∈ t.indexed, e.1 < e.2

/-- The upper bits of an absolute address, as an `unsigned int`. -/
def deviceId (addr : BitVec 64) : ℕ := Word.trunc 32 (addr.toNat >>> 28)

namespace Emulator

def onBoard {α : Type} (m : BoardM σ α) : EmulatorM σ α := fun t =>
  match m t.board with
  | .ok a b => .ok a { t with board := b }
  | .error e b => .error e { t with board := b }

def noted (id : ℕ) (t : Emulator σ) : Emulator σ :=
  { t with indexed := t.indexed ++ [(id, t.board.devices.length)] }

/-- `device_table[id]`, and the use of the entry. From `device_count` on the entries are null, and
then the array ends. -/
def index (id : ℕ) : EmulatorM σ Unit := do
  modify (noted id)
  if id < (← get).board.devices.length then pure () else throw (.fatal .arrayIndex)

/-- The end of `find_device`. -/
def findIndex (id : ℕ) : EmulatorM σ Unit := do
  if (← get).board.unattached id = false then index (Word.trunc 8 id)

/-! ## Accesses -/

section Accesses
variable [Surroundings σ]

def absRead8 (addr : BitVec 64) : EmulatorM σ U8 := do
  findIndex (deviceId addr)
  let pc := (Surroundings.getPc (← get).board).toNat
  onBoard (Access.absRead8 Surroundings.hardware pc addr.toNat)

def absRead16 (addr : BitVec 64) : EmulatorM σ U16 := do
  let high ← absRead8 addr
  let low ← absRead8 (addr + 1)
  return high.zeroExtend 16 <<< 8 ||| low.zeroExtend 16

def absWrite8 (addr : BitVec 64) (val : U8) : EmulatorM σ Unit := do
  index (deviceId addr)
  let pc := (Surroundings.getPc (← get).board).toNat
  onBoard (Surroundings.hardware.write pc (deviceId addr) (addr.toNat &&& 0xFFFFFFF) val)

def toAbsolute (addr : BitVec 64) (t : Emulator σ) : BitVec 64 :=
  BitVec.ofNat 64 (Access.toAbsolute t.board.busmaps addr.toNat)

def readAll {α : Type} : Reads α → EmulatorM σ α
  | .done a => pure a
  | .read addr k => do readAll (k (← absRead8 addr))

end Accesses

/-! ## `describe_machine` -/

/-- `prev_devid`, `prev_offset` and `prev_flags`. -/
structure Previous where
  devid : ℕ
  offset : ℕ
  flags : ℕ
  deriving DecidableEq, Repr

/-- The three variables before a block. -/
def before (maps : BusMaps) : ℕ → Previous
  | 0 => ⟨2 ^ 32 - 1, 0, 0⟩
  | mapno + 1 => ⟨(maps mapno).devid, Word.trunc 32 ((maps mapno).offset + 128), (maps mapno).flags⟩

/-- There is something to report about the block. -/
def Reported (maps : BusMaps) (mapno : ℕ) : Prop :=
  ¬((maps mapno).devid = (before maps mapno).devid ∧
    (maps mapno).flags = (before maps mapno).flags ∧
    ((maps mapno).offset = (before maps mapno).offset ∨ (maps mapno).devid = INVALID_DEVID))

instance (maps : BusMaps) (mapno : ℕ) : Decidable (Reported maps mapno) :=
  inferInstanceAs (Decidable (¬_))

def describeDevices : ℕ → ℕ → EmulatorM σ Unit
  | 0, _ => pure ()
  | n + 1, devno => do
    index devno
    describeDevices n (devno + 1)

def describeMaps (maps : BusMaps) : ℕ → ℕ → EmulatorM σ Unit
  | 0, _ => pure ()
  | n + 1, mapno => do
    if Reported maps mapno then index (maps mapno).devid
    describeMaps maps n (mapno + 1)

def describeMachine : EmulatorM σ Unit := do
  let board := (← get).board
  describeDevices board.devices.length 0
  describeMaps board.busmaps 512 0

/-! ## `examine` and `list` -/

/-- `strtoul` at the front of the flags, if there is a digit, and the text after the number. -/
def repeatFlag (flags : Text) : Option (BitVec 32 × Text) :=
  match flags with
  | [] => none
  | c :: _ =>
    if Text.isDigit c then
      let (base, ds) := Text.literal 0 flags
      some (((Text.strtoul 0 flags).getD 0).setWidth 32,
        flags.drop (ds.length + if base = 16 then 2 else 0))
    else none

def parseFormatFlag (flags : Text) (format : U8) : U8 :=
  flags.foldl (fun f c => if (Text.ofString "Xxduoasc").contains c then c else f) format

def parseSizeFlag (flags : Text) (size : BitVec 32) : BitVec 32 :=
  flags.foldl (fun n c => if c = 98 then 1 else if c = 119 then 2 else n) size

/-- The start of `do_examine`. -/
def examineFlags (flags : Text) (t : Emulator σ) : Emulator σ :=
  let (count, flags) := (repeatFlag flags).getD (t.examineRepeat, flags)
  { t with
    examineRepeat := count
    examineType :=
      { format := if flags.head? = some 105 then 105 else parseFormatFlag flags t.examineType.format
        size := parseSizeFlag flags t.examineType.size } }

section Commands
variable [Surroundings σ]

/-- One round of the loop. Nothing is read in the format `s`. -/
def examineObject : EmulatorM σ Unit := do
  let t ← get
  let addr := t.examineAddr
  if t.examineType.format = 115 then pure ()
  else if t.examineType.format = 105 then do
    let size ← readAll (Surroundings.dasm σ addr)
    modify fun t => { t with examineAddr := addr + size.signExtend 64 }
  else do
    if t.examineType.size = 1 then do let _ ← absRead8 addr
    else do let _ ← absRead16 addr
    modify fun t => { t with examineAddr := addr + t.examineType.size.zeroExtend 64 }

def examineObjects : ℕ → EmulatorM σ Unit
  | 0 => pure ()
  | n + 1 => do
    examineObject
    examineObjects n

def doExamine (flags : Text) : EmulatorM σ Unit := do
  modify (examineFlags flags)
  examineObjects (← get).examineRepeat.toNat

def readBytes : ℕ → BitVec 64 → EmulatorM σ Unit
  | 0, _ => pure ()
  | n + 1, addr => do
    let _ ← absRead8 addr
    readBytes n (addr + 1)

def printInsnLong (addr : BitVec 64) : EmulatorM σ (BitVec 32) := do
  let size ← readAll (Surroundings.dasm σ addr)
  readBytes size.toInt.toNat addr
  return size

/-- The address after `n` instructions. -/
def listInsns : ℕ → BitVec 64 → EmulatorM σ (BitVec 64)
  | 0, addr => pure addr
  | n + 1, addr => do
    let size ← printInsnLong addr
    listInsns n (addr + size.signExtend 64)

/-- Where `cmd_list` starts without an argument. -/
def listStart : EmulatorM σ (BitVec 64) := do
  let t ← get
  let addr := toAbsolute ((Surroundings.getPc t.board).zeroExtend 64) t
  if addr = t.lastpc then pure t.lastaddr
  else do
    modify fun t => { t with lastpc := addr, lastaddr := addr }
    return addr

/-- The rest of `cmd_list`. -/
def doList (start : Option (BitVec 64)) : EmulatorM σ Unit := do
  let addr ← match start with
    | some addr => pure addr
    | none => listStart
  let addr ← listInsns 16 addr
  modify fun t => { t with lastaddr := addr }

instance : Host (Emulator σ) where
  absRead8 := absRead8
  absRead16 := absRead16
  absWrite8 := absWrite8
  toAbsolute := toAbsolute
  getPc t := Surroundings.getPc t.board
  dasm addr := readAll (Surroundings.dasm σ addr)
  readVirtual name := (Surroundings.readVirtual name).map onBoard
  writeVirtual name := (Surroundings.writeVirtual name).map fun virtual val => onBoard (virtual val)
  symbol name t := Surroundings.symbol name t.board
  getS t := Surroundings.getS t.board
  setS val := onBoard (Surroundings.setS val)
  getCc t := Surroundings.getCc t.board
  setCc val := onBoard (Surroundings.setCc val)
  setPc val := onBoard (Surroundings.setPc val)
  write8 addr val := do
    let pc := (Surroundings.getPc (← get).board).toNat
    onBoard (Access.cpuWrite8 Surroundings.hardware pc addr.toNat val)
  symSet name val := onBoard (Surroundings.symSet name val)
  rest
    | .list, start, _ => doList start
    | .info, _, _ => describeMachine
    | handler, val, args => onBoard (Surroundings.rest handler val args)

end Commands

end Emulator

/-! ## The commands -/

/-- A command with its flags and its words, or anything else that happens to the board. -/
inductive DeviceCommand (σ : Type)
  | set (args : List Text)
  | examine (flags : Text) (args : List Text)
  | list (args : List Text)
  | info
  | other (m : BoardM σ Unit)

section Commands
variable [Surroundings σ]

/-- `cmd_examine`, which assigns `examine_addr` also if there is an error. -/
def examineAt (flags : Text) : List Text → DebugM (Emulator σ) Unit
  | [] => onHost (Emulator.doExamine flags)
  | arg :: _ => do
    let ((val, _), eflag) ← evaluating (evalMem eval arg .LVALUE)
    onHost (modify fun t : Emulator σ => { t with examineAddr := val })
    if eflag = 0 then onHost (Emulator.doExamine flags)

def DeviceCommand.perform : DeviceCommand σ → DebugM (Emulator σ) Unit
  | set args => cmdSet args
  | examine flags args => examineAt flags args
  | list args => cmdList args
  | info => onHost (Host.rest .info none [])
  | other m => onHost (Emulator.onBoard m)

/-! ## When no index is wrong -/

/-- An assignment to an address whose upper bits are no number of a device. -/
def strayWrite : Incident (Emulator σ) where
  leaf _ _ := False
  unary _ _ _ := False
  binary b _ w s := b = .setMemory ∧ s.eflag = 0 ∧
    s.target.board.devices.length ≤ deviceId w

/-- The text that `set` evaluates. -/
def setText : List Text → Option Text
  | [] => none
  | arg :: args =>
    if arg = Text.ofString "var" then
      args.head?.bind fun arg => (Text.splitChar 61 arg).map Prod.snd
    else some arg

/-- What a command evaluates. -/
def DeviceCommand.expr : DeviceCommand σ → Option Expr
  | set args => (setText args).map exprOf
  | examine _ args => args.head?.map (placeTree exprOf)
  | list args => args.head?.map (placeTree exprOf)
  | info => none
  | other _ => none

/-- No assignment of the command goes astray, and where `info` has something to report about a
block there is a device. -/
structure DeviceCommand.Valid (c : DeviceCommand σ) (s : State (Emulator σ)) : Prop where
  assigns : ∀ x ∈ c.expr, ¬x.Meets strayWrite { s.session with eflag := 0 }
  reports : c = .info → ∀ b < 512, Emulator.Reported s.session.target.board.busmaps b →
    (s.session.target.board.busmaps b).devid < s.session.target.board.devices.length

end Commands

/-! ## Accesses that are in range -/

namespace Emulator
section Sound

theorem noted_sound (id : ℕ) (t : Emulator σ) :
    (t.noted id).Sound ↔ t.Sound ∧ id < t.board.devices.length := by
  simp [Sound, noted, or_imp, forall_and]

theorem index_ok {id : ℕ} {t : Emulator σ} (h : id < t.board.devices.length) :
    index id t = .ok () (t.noted id) := by
  have hnoted : id < (t.noted id).board.devices.length := h
  rw [index, run_bind_ok (run_modify _), run_bind_ok run_get, if_pos hnoted]
  rfl

theorem index_error {id : ℕ} {t : Emulator σ} (h : ¬id < t.board.devices.length) :
    index id t = .error (.fatal .arrayIndex) (t.noted id) := by
  have hnoted : ¬id < (t.noted id).board.devices.length := h
  rw [index, run_bind_ok (run_modify _), run_bind_ok run_get, if_neg hnoted]
  rfl

theorem index_final (id : ℕ) (t : Emulator σ) :
    (finalState (index id t)).Sound ↔ t.Sound ∧ id < t.board.devices.length := by
  rw [← noted_sound]
  by_cases h : id < t.board.devices.length
  · rw [index_ok h]
    rfl
  · rw [index_error h]
    rfl

variable {p : Prop}

theorem modify_sound {g : Emulator σ → Emulator σ} (h : ∀ t, (g t).indexed = t.indexed) :
    Keeps (fun t : Emulator σ => t.Sound = p) (modify g : EmulatorM σ PUnit) :=
  Keeps.modify fun t ht => by rw [← ht, Sound, Sound, h]

instance onBoard_sound {α : Type} (m : BoardM σ α) :
    Keeps (fun t : Emulator σ => t.Sound = p) (onBoard m) where
  keeps t ht := by
    unfold onBoard
    cases m t.board <;> exact ht

/-- A number that `find_device` lets through is in range. -/
instance findIndex_sound (id : ℕ) : Keeps (fun t : Emulator σ => t.Sound = p) (findIndex id) where
  keeps t ht := by
    rw [findIndex, run_bind_ok run_get]
    by_cases h : t.board.unattached id = false
    · have hlt : Word.trunc 8 id < t.board.devices.length := by
        simp only [Board.unattached, Bool.or_eq_false_iff, decide_eq_false_iff_not, not_le] at h
        exact h.2
      rw [if_pos h, ← ht]
      exact propext ((index_final _ t).trans (and_iff_left hlt))
    · rw [if_neg h]
      exact ht

variable [Surroundings σ]

instance absRead8_sound (addr : BitVec 64) :
    Keeps (fun t : Emulator σ => t.Sound = p) (absRead8 addr) := by
  unfold absRead8
  infer_instance

instance absRead16_sound (addr : BitVec 64) :
    Keeps (fun t : Emulator σ => t.Sound = p) (absRead16 addr) := by
  unfold absRead16
  infer_instance

instance readAll_sound {α : Type} (r : Reads α) :
    Keeps (fun t : Emulator σ => t.Sound = p) (readAll r) := by
  induction r with
  | done a => exact Keeps.pure a
  | read addr k ih => exact (absRead8_sound addr).seq ih

instance examineObject_sound : Keeps (fun t : Emulator σ => t.Sound = p) (examineObject (σ := σ)) := by
  have hnext : ∀ g : Emulator σ → BitVec 64, Keeps (fun t : Emulator σ => t.Sound = p)
      (modify fun t => { t with examineAddr := g t } : EmulatorM σ PUnit) :=
    fun g => modify_sound fun t => rfl
  unfold examineObject
  refine Keeps.get.seq fun t => ?_
  have hsize := fun n : BitVec 32 => hnext fun _ => t.examineAddr + n.signExtend 64
  have hbytes := hnext fun u => t.examineAddr + u.examineType.size.zeroExtend 64
  infer_instance

instance examineObjects_sound (n : ℕ) :
    Keeps (fun t : Emulator σ => t.Sound = p) (examineObjects (σ := σ) n) := by
  induction n with
  | zero => exact Keeps.pure ()
  | succ n ih => exact examineObject_sound.seq fun _ => ih

instance doExamine_sound (flags : Text) :
    Keeps (fun t : Emulator σ => t.Sound = p) (doExamine (σ := σ) flags) := by
  have hflags : Keeps (fun t : Emulator σ => t.Sound = p)
      (modify (examineFlags flags) : EmulatorM σ PUnit) := modify_sound fun t => rfl
  unfold doExamine
  infer_instance

instance readBytes_sound (n : ℕ) (addr : BitVec 64) :
    Keeps (fun t : Emulator σ => t.Sound = p) (readBytes n addr) := by
  induction n generalizing addr with
  | zero => exact Keeps.pure ()
  | succ n ih => exact (absRead8_sound addr).seq fun _ => ih (addr + 1)

instance listInsns_sound (n : ℕ) (addr : BitVec 64) :
    Keeps (fun t : Emulator σ => t.Sound = p) (listInsns n addr) := by
  induction n generalizing addr with
  | zero => exact Keeps.pure addr
  | succ n ih =>
    unfold listInsns printInsnLong
    infer_instance

instance listStart_sound : Keeps (fun t : Emulator σ => t.Sound = p) (listStart (σ := σ)) := by
  have hstart : ∀ addr, Keeps (fun t : Emulator σ => t.Sound = p)
      (modify fun t => { t with lastpc := addr, lastaddr := addr } : EmulatorM σ PUnit) :=
    fun addr => modify_sound fun t => rfl
  unfold listStart
  infer_instance

instance doList_sound (start : Option (BitVec 64)) :
    Keeps (fun t : Emulator σ => t.Sound = p) (doList (σ := σ) start) := by
  have hlast : ∀ addr, Keeps (fun t : Emulator σ => t.Sound = p)
      (modify fun t => { t with lastaddr := addr } : EmulatorM σ PUnit) :=
    fun addr => modify_sound fun t => rfl
  unfold doList
  cases start <;> infer_instance

/-- A write is not checked. -/
theorem absWrite8_final (addr : BitVec 64) (val : U8) (t : Emulator σ) :
    (finalState (absWrite8 addr val t)).Sound ↔
      t.Sound ∧ deviceId addr < t.board.devices.length := by
  rw [absWrite8, finalState_bind (f := Emulator.Sound) (fun p _ => inferInstance), index_final]

end Sound

/-! ## The map -/

theorem describeDevices_run (n devno : ℕ) (t : Emulator σ) (h : devno + n ≤ t.board.devices.length) :
    ∃ u, describeDevices n devno t = .ok () u ∧ u.board = t.board ∧ (u.Sound ↔ t.Sound) := by
  induction n generalizing devno t with
  | zero => exact ⟨t, rfl, rfl, Iff.rfl⟩
  | succ n ih =>
    have hdevno : devno < t.board.devices.length := by omega
    have hrest : devno + 1 + n ≤ (t.noted devno).board.devices.length := by
      change devno + 1 + n ≤ t.board.devices.length
      omega
    obtain ⟨u, hrun, hboard, hsound⟩ := ih (devno + 1) (t.noted devno) hrest
    refine ⟨u, ?_, hboard, hsound.trans ((noted_sound devno t).trans (and_iff_left hdevno))⟩
    rw [describeDevices, run_bind_ok (index_ok hdevno)]
    exact hrun

theorem describeMaps_final (maps : BusMaps) (n mapno : ℕ) (t : Emulator σ) :
    (finalState (describeMaps maps n mapno t)).Sound ↔ t.Sound ∧
      ∀ i < n, Reported maps (mapno + i) → (maps (mapno + i)).devid < t.board.devices.length := by
  induction n generalizing mapno t with
  | zero => simp [describeMaps, finalState]
  | succ n ih =>
    rw [Nat.forall_lt_succ_left]
    simp only [Nat.add_zero, ← Nat.add_assoc, Nat.add_right_comm mapno _ 1]
    rw [describeMaps]
    by_cases hreported : Reported maps mapno
    · rw [if_pos hreported, ← and_assoc, imp_iff_right hreported, ← noted_sound]
      by_cases hdevid : (maps mapno).devid < t.board.devices.length
      · rw [run_bind_ok (index_ok hdevid)]
        exact ih (mapno + 1) _
      · rw [run_bind_error (index_error hdevid)]
        exact (and_iff_left_of_imp fun h => absurd ((noted_sound _ t).mp h).2 hdevid).symm
    · have hvacuous : (Reported maps mapno → (maps mapno).devid < t.board.devices.length) :=
        fun h => absurd h hreported
      rw [if_neg hreported, and_iff_right hvacuous]
      exact ih (mapno + 1) t

/-- The devices are described in range, and a block where its device is known. -/
theorem describeMachine_final (t : Emulator σ) :
    (finalState (describeMachine t)).Sound ↔ t.Sound ∧ ∀ b < 512, Reported t.board.busmaps b →
      (t.board.busmaps b).devid < t.board.devices.length := by
  obtain ⟨u, hrun, hboard, hsound⟩ := describeDevices_run t.board.devices.length 0 t (by simp)
  rw [describeMachine, run_bind_ok run_get, run_bind_ok hrun, describeMaps_final, hsound, hboard]
  simp only [Nat.zero_add]

/-- Where no block starts with the number that stands for none, every block has to be known. -/
theorem reported_iff {maps : BusMaps} {n : ℕ} (h : (maps 0).devid ≠ 2 ^ 32 - 1) :
    (∀ b < 512, Reported maps b → (maps b).devid < n) ↔ ∀ b < 512, (maps b).devid < n := by
  refine ⟨fun hreported b hb => ?_, fun hknown b hb _ => hknown b hb⟩
  by_cases hb' : Reported maps b
  · exact hreported b hb hb'
  induction b with
  | zero => exact absurd (not_not.mp hb').1 h
  | succ b ih =>
    have hsame : (maps (b + 1)).devid = (maps b).devid := (not_not.mp hb').1
    rw [hsame]
    by_cases hprev : Reported maps b
    · exact hreported b (by omega) hprev
    · exact ih (by omega) hprev

end Emulator

/-! ## Evaluations -/

section Evaluations
variable [Surroundings σ]

instance sound_steady {p : Prop} : Steady fun t : Emulator σ => t.Sound = p where
  absRead8 := Emulator.absRead8_sound
  absRead16 := Emulator.absRead16_sound
  readVirtual name m hread := by
    obtain ⟨virtual, -, rfl⟩ := Option.map_eq_some_iff.mp hread
    exact Emulator.onBoard_sound virtual

omit [Surroundings σ] in
theorem shows_sound {α : Type} {m : EvalM (Emulator σ) α}
    (h : ∀ p, Keeps (fun s : Session (Emulator σ) => s.target.Sound = p) m) {q : Prop} (hq : ¬q)
    (s : Session (Emulator σ)) :
    Shows (fun t => ¬t.target.Sound) (fun _ => False) (m s) ↔ ¬s.target.Sound ∨ q :=
  shows_steady (f := fun s : Session (Emulator σ) => s.target.Sound) (P := Not) h hq s

theorem strayWrite_shown :
    (strayWrite (σ := σ)).Shown (fun s => ¬s.target.Sound) fun _ => False where
  leaf l s := shows_sound (fun p => l.run_steady (I := fun t : Emulator σ => t.Sound = p)) id s
  unary u v s := by
    refine shows_sound (fun p => u.apply_steady (I := fun t : Emulator σ => t.Sound = p) v ?_) id s
    intro name virtual _ hwrite
    obtain ⟨handler, -, rfl⟩ := Option.map_eq_some_iff.mp hwrite
    exact Emulator.onBoard_sound (handler v)
  binary b v w s := by
    by_cases hset : b = .setMemory ∧ s.eflag = 0
    · obtain ⟨rfl, hflag⟩ := hset
      rw [Binary.apply, run_bind_ok run_get, if_pos hflag, shows_final, finalState_bind_pure,
        finalState_onTarget]
      simp only [strayWrite, hflag, true_and, ← not_lt]
      rw [← not_and_or]
      exact not_congr (Emulator.absWrite8_final w (v.setWidth 8) s.target)
    · by_cases hb : b = .setMemory
      · subst hb
        rw [Binary.apply, run_bind_ok run_get, if_neg fun hflag => hset ⟨rfl, hflag⟩]
        exact shows_sound (fun p => Keeps.pure v) (fun h => hset ⟨rfl, h.2.1⟩) s
      · exact shows_sound (fun p => Binary.apply_keeps (I := fun t : Emulator σ => t.Sound = p) hb v w)
          (fun h => hb h.1) s

end Evaluations

/-! ## Commands -/

section Runs

theorem finalState_evaluating {τ α : Type} (m : EvalM τ α) (s : State τ) :
    (finalState (evaluating m s)).session = finalState (m { s.session with eflag := 0 }) := by
  rw [evaluating]
  cases m { s.session with eflag := 0 } <;> rfl

theorem finalState_onHost {τ α : Type} (m : EStateM Stop τ α) (s : State τ) :
    (finalState (onHost m s)).session.target = finalState (m s.session.target) := by
  rw [onHost, finalState_bind (f := fun s => s) (fun _ _ => Keeps.pure _), finalState_evaluating,
    finalState_onTarget]

variable {p : Prop}

instance onHost_sound {α : Type} (m : EmulatorM σ α)
    [h : Keeps (fun t : Emulator σ => t.Sound = p) m] :
    Keeps (fun s : State (Emulator σ) => s.session.target.Sound = p) (onHost m) where
  keeps s hs := by
    rw [finalState_onHost]
    exact h.keeps s.session.target hs

theorem onHost_final {α : Type} {m : EmulatorM σ α}
    (h : ∀ p, Keeps (fun t : Emulator σ => t.Sound = p) m) (s : State (Emulator σ)) :
    (finalState (onHost m s)).session.target.Sound ↔ s.session.target.Sound := by
  rw [finalState_onHost]
  exact iff_of_eq ((h s.session.target.Sound).keeps s.session.target rfl)

variable [Surroundings σ]

/-- A command that evaluates an expression first. -/
theorem evaluated_final {m : EvalM (Emulator σ) Evaluated} {x : Expr} (hm : Runs m x) {α : Type}
    {k : Evaluated × ℕ → DebugM (Emulator σ) α}
    (hk : ∀ p r, Keeps (fun s : State (Emulator σ) => s.session.target.Sound = p) (k r))
    (s : State (Emulator σ)) : (finalState ((evaluating m >>= k) s)).session.target.Sound ↔
      s.session.target.Sound ∧ ¬x.Meets strayWrite { s.session with eflag := 0 } := by
  have hshows := hm.shows_iff strayWrite_shown { s.session with eflag := 0 }
  rw [shows_final] at hshows
  rw [finalState_bind (f := fun s : State (Emulator σ) => s.session.target.Sound) hk,
    finalState_evaluating, ← not_iff_not, not_and_or, not_not]
  exact hshows

theorem DeviceCommand.valid_iff {c : DeviceCommand σ} (hinfo : c ≠ .info)
    (s : State (Emulator σ)) :
    c.Valid s ↔ ∀ x ∈ c.expr, ¬x.Meets strayWrite { s.session with eflag := 0 } :=
  ⟨DeviceCommand.Valid.assigns, fun h => ⟨h, fun hc => absurd hc hinfo⟩⟩

theorem cmdSet_final (args : List Text) (s : State (Emulator σ)) :
    (finalState (cmdSet args s)).session.target.Sound ↔ s.session.target.Sound ∧
      ∀ text ∈ setText args, ¬(exprOf text).Meets strayWrite { s.session with eflag := 0 } := by
  cases args with
  | nil => simp [cmdSet, setText, finalState]
  | cons arg args =>
    by_cases hvar : arg = Text.ofString "var"
    · cases args with
      | nil => simp [cmdSet, setText, hvar, finalState]
      | cons name args =>
        cases hsplit : Text.splitChar 61#8 name with
        | none => simp [cmdSet, setText, hvar, hsplit, finalState]
        | some sides =>
          have htext : setText (arg :: name :: args) = some sides.2 := by simp [setText, hvar, hsplit]
          have hequals : Text.splitChar 61 name = some sides := hsplit
          simp only [htext, Option.mem_some_iff, forall_eq']
          simp only [cmdSet, if_pos hvar]
          rw [hequals]
          refine evaluated_final (eval_runs sides.2) (fun p r => ?_) s
          have hset : Keeps (fun t : Emulator σ => t.Sound = p) (Host.symSet sides.1 r.1.1) :=
            Emulator.onBoard_sound _
          infer_instance
    · have htext : setText (arg :: args) = some arg := by rw [setText, if_neg hvar]
      simp only [htext, Option.mem_some_iff, forall_eq']
      simp only [cmdSet, if_neg hvar]
      exact evaluated_final (eval_runs arg) (fun p r => Keeps.pure _) s

theorem examineAt_final (flags : Text) (args : List Text) (s : State (Emulator σ)) :
    (finalState (examineAt flags args s)).session.target.Sound ↔ s.session.target.Sound ∧
      ∀ arg ∈ args.head?, ¬(placeTree exprOf arg).Meets strayWrite { s.session with eflag := 0 } := by
  cases args with
  | nil => simpa [examineAt] using onHost_final (fun p => Emulator.doExamine_sound flags) s
  | cons arg args =>
    simp only [List.head?_cons, Option.mem_some_iff, forall_eq']
    refine evaluated_final (evalMem_runs arg) (fun p r => ?_) s
    have haddr : Keeps (fun t : Emulator σ => t.Sound = p)
        (modify fun t => { t with examineAddr := r.1.1 } : EmulatorM σ PUnit) :=
      Emulator.modify_sound fun t => rfl
    infer_instance

theorem cmdList_final (args : List Text) (s : State (Emulator σ)) :
    (finalState (cmdList args s)).session.target.Sound ↔ s.session.target.Sound ∧
      ∀ arg ∈ args.head?, ¬(placeTree exprOf arg).Meets strayWrite { s.session with eflag := 0 } := by
  have hlist (p : Prop) (start : Option (BitVec 64)) : Keeps (fun t : Emulator σ => t.Sound = p)
      (Host.rest .list start []) := Emulator.doList_sound start
  cases args with
  | nil => simpa [cmdList, cmdInspect] using onHost_final (fun p => hlist p none) s
  | cons arg args =>
    simp only [List.head?_cons, Option.mem_some_iff, forall_eq']
    refine evaluated_final (evalMem_runs arg) (fun p r => ?_) s
    have hstart := hlist p (some r.1.1)
    infer_instance

/-- A command indexes the table in range exactly if it is valid. -/
theorem DeviceCommand.perform_final (c : DeviceCommand σ) (s : State (Emulator σ)) :
    (finalState (c.perform s)).session.target.Sound ↔ s.session.target.Sound ∧ c.Valid s := by
  cases c with
  | set args =>
    rw [DeviceCommand.valid_iff (by simp), DeviceCommand.perform]
    simpa [DeviceCommand.expr] using cmdSet_final args s
  | examine flags args =>
    rw [DeviceCommand.valid_iff (by simp), DeviceCommand.perform]
    simpa [DeviceCommand.expr] using examineAt_final flags args s
  | list args =>
    rw [DeviceCommand.valid_iff (by simp), DeviceCommand.perform]
    simpa [DeviceCommand.expr] using cmdList_final args s
  | info =>
    have hvalid : (DeviceCommand.info (σ := σ)).Valid s ↔ ∀ b < 512,
        Emulator.Reported s.session.target.board.busmaps b →
          (s.session.target.board.busmaps b).devid < s.session.target.board.devices.length :=
      ⟨fun h => h.reports rfl, fun h => ⟨by simp [DeviceCommand.expr], fun _ => h⟩⟩
    rw [hvalid, DeviceCommand.perform, finalState_onHost]
    exact Emulator.describeMachine_final s.session.target
  | other m =>
    rw [DeviceCommand.valid_iff (by simp), DeviceCommand.perform]
    simpa [DeviceCommand.expr] using onHost_final (fun p => Emulator.onBoard_sound m) s

/-- Every index is in range after every part of a run, exactly if every command is valid when it
is given. -/
theorem indexes_iff (cs : List (DeviceCommand σ)) (s : State (Emulator σ))
    (h : s.session.target.indexed = []) :
    (∀ front, front <+: cs →
        (finalState (runAll DeviceCommand.perform front s)).session.target.Sound) ↔
      Along DeviceCommand.perform DeviceCommand.Valid cs s := by
  have hsound : s.session.target.Sound := by simp [Emulator.Sound, h]
  refine (along_iff_ends (P := fun s : State (Emulator σ) => s.session.target.Sound)
    (I := fun s => s.session.target.Sound) (fun s hs => hs) (fun c s hs => ?_)
    (fun c s hs hc => ?_) hsound).symm
  · exact (and_iff_right hs).symm.trans (c.perform_final s).symm
  · exact (c.perform_final s).mpr ⟨hs, hc⟩

end Runs

/-! ## A machine without a map -/

/-- A processor without registers and symbols, in front of RAM. -/
instance : Surroundings Unit where
  hardware := ⟨fun _ dev offset => ramRead dev offset, fun _ dev offset val => ramWrite dev offset val⟩
  getPc _ := 0
  getS _ := 0
  setS _ := pure ()
  getCc _ := 0
  setCc _ := pure ()
  setPc _ := pure ()
  readVirtual _ := none
  writeVirtual _ := none
  symbol _ _ := none
  symSet _ _ := pure ()
  dasm _ := .done 1
  rest _ _ _ := pure ()

/-- No device but the null device, and no block of the map. -/
def bareBoard : Board Unit :=
  { Board.start .fault true () with devices := [⟨.null, 0⟩], attached := by decide }

def bareState : State (Emulator Unit) := State.init ⟨bareBoard, 0, 1, ⟨88, 1⟩, 0, 0, []⟩

theorem indexes_info : (∀ front, front <+: [.info] →
      (finalState (runAll DeviceCommand.perform front bareState)).session.target.Sound) ↔
    Along DeviceCommand.perform DeviceCommand.Valid [.info] bareState := indexes_iff [.info] bareState rfl

/-- `info`, where the first block has no device. -/
theorem unmapped_described : ¬∀ (cs : List (DeviceCommand Unit)) (s : State (Emulator Unit)),
    s.session.target.indexed = [] → ∀ front, front <+: cs →
      (finalState (runAll DeviceCommand.perform front s)).session.target.Sound := by
  intro h
  have hrun : (finalState (runAll DeviceCommand.perform [.info] bareState)).session.target.indexed =
      [(0, 1), (255, 1)] := rfl
  have hsound := h [.info] bareState rfl [.info] List.prefix_rfl (255, 1) (by rw [hrun]; simp)
  exact absurd hsound (by decide)

end Exec09.Debugger
