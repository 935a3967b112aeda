import Exec09.Bus.Overrun
import Exec09.Cpu.BusSimulation
import Exec09.Debugger.CodeView
import Exec09.Loader.ImageFile
import Exec09.Machines.SingleBoard

/-! # Computers with a flat memory

What the boards `simple`, `smii` and `kipper1` are for: a processor with 64K of
memory by CPU address, a console in one window of it, and addresses where
nothing answers. There are no devices, no offsets and no map.
-/
namespace Exec09.Machines
open Foundation Access

/-- What answers in a block of 128 addresses. -/
inductive Block
  | ram
  /-- A write to a quiet part of the ROM is ignored; elsewhere it is a fault. -/
  | rom (quiet : Bool)
  | console
  /-- Writes are ignored and reads are faults. -/
  | sink
  | vacant
  deriving DecidableEq, Repr

def Block.isMemory : Block → Bool
  | .ram | .rom _ => true
  | _ => false

/-- The flags of the map. -/
def Block.flags : Block → ℕ
  | .ram | .console => MAP_READWRITE
  | .rom quiet => if quiet then MAP_IGNOREWRITE ||| MAP_READABLE else MAP_READABLE
  | .sink => MAP_IGNOREWRITE
  | .vacant => 0

theorem Block.readable_memory {b : Block} (hmem : b.isMemory = true) : b.flags &&& MAP_READABLE ≠ 0 := by
  cases b with
  | ram => decide
  | rom quiet => cases quiet <;> decide
  | console | sink | vacant => cases hmem

/-- The address space of a machine, by block number. -/
def SingleBoard.block : SingleBoard → ℕ → Block
  | .simple, b => if b = 0xFF00 / 128 then .console else .ram
  | .smii, b =>
    if b < 0x7C00 / 128 then .ram
    else if b = 0x7C00 / 128 then .console
    else if b < 0x8000 / 128 then .vacant
    else if 0xE000 / 128 ≤ b then .rom (b % 32 = 0)
    else if b % 32 = 0 then .sink else .vacant
  | .kipper1, b =>
    if b < 0x8000 / 128 then .ram
    else if b = 0xA000 / 128 then .console
    else if 0xC000 / 128 ≤ b then .rom false else .vacant

structure Computer (m : SingleBoard) where
  mem : ℕ → U8
  running : Bool
  /-- A fault does not end the emulator. -/
  debugEnabled : Bool
  console : Terminal

abbrev ComputerM (m : SingleBoard) := EStateM Stop (Computer m)

namespace Computer
variable {m : SingleBoard}

def simError : ComputerM m Unit := do
  if !(← get).debugEnabled then throw (.exit 2)

def fault : ComputerM m Unit := do
  if (← get).running then simError

theorem simError_run (c : Computer m) :
    simError c = if c.debugEnabled then .ok () c else .error (.exit 2) c := by
  rw [simError, run_bind_ok run_get]
  cases c.debugEnabled <;> rfl

theorem fault_run (c : Computer m) :
    fault c = if c.running && !c.debugEnabled then .error (.exit 2) c else .ok () c := by
  rw [fault, run_bind_ok run_get]
  cases c.running with
  | false => rfl
  | true =>
    rw [if_pos rfl, simError_run]
    cases c.debugEnabled <;> rfl

def onConsole {α : Type} (op : TerminalM α) : ComputerM m α := fun c =>
  match op c.console with
  | .ok a t => .ok a { c with console := t }
  | .error e t => .error e { c with console := t }

def poke (a : ℕ) (v : U8) (c : Computer m) : Computer m :=
  { c with mem := Function.update c.mem a v }

def read8 (a : ℕ) : ComputerM m U8 :=
  if a < 0x10000 then
    match m.block (a / 128) with
    | .ram | .rom _ => return (← get).mem a
    | .console => onConsole (m.consoleRead (a % 128))
    | .sink | .vacant => do
      fault
      return 0xff
  else throw (.fatal .mapIndex)

def read16 (a : ℕ) : ComputerM m U16 :=
  if a < 0x10000 then
    match m.block (a / 128) with
    | .ram | .rom _ =>
      if a + 1 < 0x10000 ∧ (m.block ((a + 1) / 128)).isMemory then
        return (← get).mem a ++ (← get).mem (a + 1)
      -- the RAM of `simple` goes on under the console, where nothing has been written
      else if m = .simple ∧ a + 1 < 0x10000 then return (← get).mem a ++ (0 : U8)
      else throw (.fatal .bufferRead)
    | .console => do
      let high ← onConsole (m.consoleRead (a % 128))
      let low ← onConsole (m.consoleRead (a % 128 + 1))
      return high ++ low
    | .sink | .vacant => do
      fault
      return 0xffff
  else throw (.fatal .mapIndex)

def write8 (a : ℕ) (v : U8) : ComputerM m Unit :=
  if a < 0x10000 then
    match m.block (a / 128) with
    | .ram => modify (poke a v)
    | .rom quiet => do
      if !(← get).running then modify (poke a v)
      else if !quiet then simError
    | .console => onConsole (m.consoleWrite (a % 128) v)
    | .sink => pure ()
    | .vacant => fault
  else throw (.fatal .mapIndex)

instance : Bus (Computer m) where
  cpuRead8 _ := read8
  cpuRead16 _ := read16
  cpuWrite8 _ := write8
  simError := simError
  cpuIsRunning c := { c with running := true }

end Computer

/-- The board of a machine, with the bus of `machine.c`. -/
def Assembled (_ : SingleBoard) : Type := Board Terminal

instance (m : SingleBoard) : Bus (Assembled m) := Debugger.boardBus m.hardware

/-! ## The map as the description of the address space -/

namespace SingleBoard

/-- The device and the offset of an address in the memory. -/
def place (m : SingleBoard) (a : ℕ) : ℕ × ℕ :=
  match m with
  | simple => (1, a)
  | smii => if a < 0x8000 then (1, a) else (2, a - 0xE000)
  | kipper1 => if a < 0x8000 then (1, a) else (2, a - 0xC000)

def consoleId : SingleBoard → ℕ
  | simple => 2
  | smii => 4
  | kipper1 => 3

/-- The entry of the map that puts the block into the address space. -/
def entry (m : SingleBoard) (b : ℕ) : BusEntry :=
  match m.block b with
  | .ram | .rom _ => ⟨(m.place (128 * b)).1, (m.place (128 * b)).2, (m.block b).flags⟩
  | .console => ⟨m.consoleId, 0, (m.block b).flags⟩
  | .sink => ⟨3, 0, (m.block b).flags⟩
  | .vacant => ⟨INVALID_DEVID, 0, (m.block b).flags⟩

theorem entry_flags (m : SingleBoard) (b : ℕ) : (m.entry b).flags = (m.block b).flags := by
  rw [entry]
  cases m.block b <;> rfl

variable {b : ℕ}

theorem busmaps_entry (m : SingleBoard) (hb : b < 512) : m.busmaps b = m.entry b := by
  have hdecide : ∀ b < 512,
      ((Layer.deciding BusEntry.fixed (m.setupCalls.map MapCall.layer) b).map fun l =>
        l.value b).getD ⟨INVALID_DEVID, 0, 0⟩ = m.entry b := by
    cases m <;> decide +kernel
  have hfree : (initialBusmaps b).fixed = false := by simp [initialBusmaps, BusEntry.fixed]
  rw [busmaps, Layer.lay_apply _ hfree]
  exact hdecide b hb

variable {m : SingleBoard} {a a' : ℕ}

/-- A block of the memory lies in a RAM or a ROM. -/
theorem memory_fits (hb : b < 512) (hmem : (m.block b).isMemory = true) :
    (m.devices.getD (m.place (128 * b)).1 ⟨.null, 0⟩).cls ∈ [DeviceClass.ram, .rom] ∧
    (m.place (128 * b)).2 + 128 ≤ (m.devices.getD (m.place (128 * b)).1 ⟨.null, 0⟩).size ∧
    (m.place (128 * b)).1 < m.devices.length := by
  have hdecide : ∀ b < 512, (m.block b).isMemory = true →
      (m.devices.getD (m.place (128 * b)).1 ⟨.null, 0⟩).cls ∈ [DeviceClass.ram, .rom] ∧
      (m.place (128 * b)).2 + 128 ≤ (m.devices.getD (m.place (128 * b)).1 ⟨.null, 0⟩).size ∧
      (m.place (128 * b)).1 < m.devices.length := by
    cases m <;> decide +kernel
  exact hdecide b hb hmem

/-- The memory of smii and kipper1 has a gap below the ROM. -/
theorem memory_outside_gap (hmem : (m.block (a / 128)).isMemory = true) :
    m = simple ∨ a < 0x8000 ∨ m = smii ∧ 0xE000 ≤ a ∨ m = kipper1 ∧ 0xC000 ≤ a := by
  cases m with
  | simple => exact .inl rfl
  | smii =>
    by_contra hgap
    simp only [reduceCtorEq, false_or, true_and, false_and, or_false, not_or, not_lt, not_le] at hgap
    rw [block, if_neg (by omega), if_neg (by omega), if_neg (by omega), if_neg (by omega)] at hmem
    split at hmem <;> cases hmem
  | kipper1 =>
    by_contra hgap
    simp only [reduceCtorEq, false_or, true_and, false_and, not_or, not_lt, not_le] at hgap
    rw [block, if_neg (by omega)] at hmem
    split at hmem
    · cases hmem
    · rw [if_neg (by omega)] at hmem
      cases hmem

theorem place_of_block (hmem : (m.block (a / 128)).isMemory = true) :
    m.place a = ((m.place (128 * (a / 128))).1, (m.place (128 * (a / 128))).2 + a % 128) := by
  have hgap := memory_outside_gap hmem
  have hsplit : a = 128 * (a / 128) + a % 128 := by omega
  by_cases hlow : a < 0x8000
  · have hbase : 128 * (a / 128) < 0x8000 := by omega
    cases m <;> simp only [place, if_pos hlow, if_pos hbase, ← hsplit]
  · have hbase : ¬128 * (a / 128) < 0x8000 := by omega
    cases m <;> simp only [place, if_neg hlow, if_neg hbase, ← hsplit, Prod.mk.injEq, true_and]
    all_goals simp only [reduceCtorEq, hlow, false_or, true_and, false_and, or_false] at hgap
    all_goals omega

theorem place_succ (hmem : (m.block (a / 128)).isMemory = true)
    (hnext : (m.block ((a + 1) / 128)).isMemory = true) :
    m.place (a + 1) = ((m.place a).1, (m.place a).2 + 1) := by
  have hgap := memory_outside_gap hmem
  have hgap' := memory_outside_gap hnext
  by_cases hlow : a + 1 < 0x8000
  · have hbelow : a < 0x8000 := by omega
    cases m <;> simp only [place, if_pos hlow, if_pos hbelow]
  · cases m with
    | simple => rfl
    | smii =>
      simp only [reduceCtorEq, hlow, false_or, true_and, false_and, or_false] at hgap hgap'
      have hhigh : ¬a < 0x8000 := by omega
      simp only [place, if_neg hlow, if_neg hhigh, Prod.mk.injEq, true_and]
      omega
    | kipper1 =>
      simp only [reduceCtorEq, hlow, false_or, true_and, false_and] at hgap hgap'
      have hhigh : ¬a < 0x8000 := by omega
      simp only [place, if_neg hlow, if_neg hhigh, Prod.mk.injEq, true_and]
      omega

/-- Behind the end of a memory there is no buffer, but for the RAM under the console of `simple`. -/
theorem memory_end (ha : a < 0x10000) (hmem : (m.block (a / 128)).isMemory = true)
    (hend : ¬(a + 1 < 0x10000 ∧ (m.block ((a + 1) / 128)).isMemory = true)) :
    (m.devices.getD (m.place a).1 ⟨.null, 0⟩).size ≤ (m.place a).2 + 1 ∨
      m = simple ∧ a + 1 = 0xFF00 := by
  have hdecide : ∀ b < 512, (m.block b).isMemory = true →
      ¬(b + 1 < 512 ∧ (m.block (b + 1)).isMemory = true) →
      (m.devices.getD (m.place (128 * b)).1 ⟨.null, 0⟩).size ≤ (m.place (128 * b)).2 + 128 ∨
        m = simple ∧ b + 1 = 0xFF00 / 128 := by
    cases m <;> decide +kernel
  have hlast : a % 128 = 127 := by
    by_contra hinside
    have hsame : (a + 1) / 128 = a / 128 := by omega
    exact hend ⟨by omega, by rw [hsame]; exact hmem⟩
  have hnext : (a + 1) / 128 = a / 128 + 1 := by omega
  rw [hnext] at hend
  rw [place_of_block hmem, hlast]
  refine (hdecide (a / 128) (by omega) hmem fun h => hend ⟨by omega, h.2⟩).imp id ?_
  rintro ⟨hm, hb⟩
  exact ⟨hm, by omega⟩

theorem rom_place (hmem : (m.block (a / 128)).isMemory = true) (ha : a / 128 < 512) :
    (m.place a).1 = 2 ∧ m ≠ simple ↔ m.block (a / 128) ≠ .ram := by
  have hdecide : ∀ b < 512, (m.block b).isMemory = true →
      ((m.place (128 * b)).1 = 2 ∧ m ≠ simple ↔ m.block b ≠ .ram) := by
    cases m <;> decide +kernel
  rw [place_of_block hmem]
  exact hdecide _ ha hmem

/-- Only smii has devices that ignore what is written. -/
theorem eq_smii_of_sink (h : m.block b = .sink) : m = smii := by
  cases m with
  | simple => rw [block] at h; split at h <;> cases h
  | smii => rfl
  | kipper1 =>
    rw [block] at h
    repeat' split at h
    all_goals cases h

theorem place_le (m : SingleBoard) (a : ℕ) : (m.place a).2 ≤ a := by
  cases m with
  | simple => exact le_rfl
  | smii | kipper1 =>
    rw [place]
    split
    · exact le_rfl
    · exact Nat.sub_le _ _

/-- Two addresses in the memory do not share a byte. -/
theorem place_inj (hmem : (m.block (a / 128)).isMemory = true)
    (hmem' : (m.block (a' / 128)).isMemory = true) (h : m.place a = m.place a') : a = a' := by
  have hgap := memory_outside_gap hmem
  have hgap' := memory_outside_gap hmem'
  cases m with
  | simple => simpa [place] using h
  | smii =>
    simp only [place, reduceCtorEq, false_or, true_and, false_and, or_false] at hgap hgap' h
    split at h <;> split at h <;> simp only [Prod.mk.injEq] at h <;> omega
  | kipper1 =>
    simp only [place, reduceCtorEq, false_or, true_and, false_and] at hgap hgap' h
    split at h <;> split at h <;> simp only [Prod.mk.injEq] at h <;> omega

end SingleBoard

/-! ## The board does what the description says -/

/-- The board in state `s` is the computer in state `c`. -/
structure Realizes (m : SingleBoard) (s : Board Terminal) (c : Computer m) : Prop where
  devices : s.devices = m.devices
  busmaps : s.busmaps = m.busmaps
  machineFault : s.machineFault = .fault
  running : s.cpuRunning = c.running
  debugEnabled : s.debugEnabled = c.debugEnabled
  console : s.priv = c.console
  memory : ∀ a < 0x10000, (m.block (a / 128)).isMemory = true →
    s.mem (m.place a).1 (m.place a).2 = c.mem a
  hidden : m = .simple → s.mem 1 0xFF00 = 0

namespace Realizes
variable {m : SingleBoard} {s : Board Terminal} {c : Computer m} {a : ℕ}

instance : Untraced (Realizes m · c) := ⟨fun _ _ _ h => { h with }⟩

theorem entry (h : Realizes m s c) (ha : a < 0x10000) : findMap s.busmaps a = m.entry (a / 128) := by
  rw [findMap, h.busmaps, m.busmaps_entry (by omega)]

theorem faultStops (h : Realizes m s c) : s.faultStops = (c.running && !c.debugEnabled) := by
  rw [Board.faultStops, h.machineFault, h.running, h.debugEnabled]
  cases c.running <;> rfl

theorem record (h : Realizes m s c) (e : BusEvent) : Realizes m (s.record e) c := { h with }

theorem onTerminal {α : Type} (h : Realizes m s c) (op : TerminalM α) :
    Corresponds (Realizes m) (Machines.onTerminal op s) (Computer.onConsole op c) := by
  rw [Machines.onTerminal, Computer.onConsole, h.console]
  cases op c.console
  · exact ⟨rfl, { h with console := rfl }⟩
  · exact ⟨rfl, { h with console := rfl }⟩

/-- What the setup puts at the addresses of the memory. -/
structure Backed (m : SingleBoard) (a : ℕ) (s : Board Terminal) (flags : ℕ) : Prop where
  resolved : resolve s.busmaps a = ⟨(m.place a).1, (m.place a).2, flags⟩
  devid : Word.trunc 8 (m.place a).1 = (m.place a).1
  attached : s.unattached (m.place a).1 = false
  buffered : (s.devices.getD (m.place a).1 ⟨.null, 0⟩).cls ∈ [DeviceClass.ram, .rom]
  inside : (m.place a).2 < s.size (m.place a).1

theorem backed (h : Realizes m s c) (ha : a < 0x10000) (hmem : (m.block (a / 128)).isMemory = true) :
    Backed m a s (m.block (a / 128)).flags := by
  obtain ⟨hcls, hsize, hdev⟩ := m.memory_fits (b := a / 128) (by omega) hmem
  have hplace := m.place_of_block hmem
  have hshort : m.devices.length ≤ 5 := by cases m <;> decide
  have hbig : (m.devices.getD (m.place (128 * (a / 128))).1 ⟨.null, 0⟩).size ≤ 0x10000 := by
    have hsizes : ∀ n, (m.devices.getD n ⟨.null, 0⟩).size ≤ 0x10000 := by
      intro n
      by_cases hn : n < 5
      · interval_cases n <;> cases m <;> decide
      · rw [List.getD_eq_default _ _ (by omega)]
        decide
    exact hsizes _
  have hentry : (m.entry (a / 128)).devid = (m.place (128 * (a / 128))).1 ∧
      (m.entry (a / 128)).offset = (m.place (128 * (a / 128))).2 := by
    rw [SingleBoard.entry]
    cases hb : m.block (a / 128) <;> rw [hb] at hmem
    case ram | rom => exact ⟨rfl, rfl⟩
    all_goals cases hmem
  have hflags := m.entry_flags (a / 128)
  have hbyte : Word.trunc 8 (m.place a).1 = (m.place a).1 := by
    rw [hplace]
    exact Word.trunc_of_lt (by dsimp only; omega)
  refine ⟨?_, hbyte, ?_, ?_, ?_⟩
  · rw [resolve, h.entry ha, BusEntry.resolution, hentry.1, hentry.2, hflags,
      Word.trunc_of_lt (by omega), hplace]
  · have hvalid : (m.place a).1 ≠ INVALID_DEVID := by
      rw [hplace, INVALID_DEVID]
      dsimp only
      omega
    rw [Board.unattached, hbyte, h.devices, hplace]
    simp only [Bool.or_eq_false_iff, beq_eq_false_iff_ne, decide_eq_false_iff_not, not_le]
    exact ⟨by rw [← show (m.place a).1 = _ from congrArg Prod.fst hplace]; exact hvalid, hdev⟩
  · rw [h.devices, hplace]
    exact hcls
  · rw [Board.size, h.devices, hplace]
    dsimp only
    omega

section Memory
variable {flags : ℕ} {e : BusEvent}

theorem Backed.read {m : SingleBoard} {dev offset : ℕ} {s : Board Terminal} (pc : ℕ)
    (hcls : (s.devices.getD dev ⟨.null, 0⟩).cls ∈ [DeviceClass.ram, .rom])
    (hin : offset < s.size dev) : m.hardware.read pc dev offset s = .ok (s.mem dev offset) s := by
  have hram : ramRead dev offset s = .ok (s.mem dev offset) s := by
    rw [ramRead, run_bind_ok run_get, if_pos hin]
    rfl
  rw [SingleBoard.hardware]
  dsimp only
  rw [run_bind_ok run_get]
  rcases List.mem_cons.mp hcls with hcls | hcls
  · rw [hcls]
    exact hram
  · rw [List.mem_singleton.mp hcls]
    exact hram

theorem Backed.read_outside {m : SingleBoard} {dev offset : ℕ} {s : Board Terminal} (pc : ℕ)
    (hcls : (s.devices.getD dev ⟨.null, 0⟩).cls ∈ [DeviceClass.ram, .rom])
    (hout : ¬offset < s.size dev) :
    m.hardware.read pc dev offset s = .error (.fatal .bufferRead) s := by
  have hram : ramRead dev offset s = .error (.fatal .bufferRead) s := by
    rw [ramRead, run_bind_ok run_get, if_neg hout]
    rfl
  rw [SingleBoard.hardware]
  dsimp only
  rw [run_bind_ok run_get]
  rcases List.mem_cons.mp hcls with hcls | hcls
  · rw [hcls]
    exact hram
  · rw [List.mem_singleton.mp hcls]
    exact hram

theorem Backed.write {m : SingleBoard} {dev offset : ℕ} {s : Board Terminal} (pc : ℕ) (v : U8)
    (hcls : (s.devices.getD dev ⟨.null, 0⟩).cls ∈ [DeviceClass.ram, .rom])
    (hin : offset < s.size dev) :
    m.hardware.write pc dev offset v s = .ok () (s.setMem dev offset v) := by
  have hram : ramWrite dev offset v s = .ok () (s.setMem dev offset v) := by
    rw [ramWrite, run_bind_ok run_get, if_pos hin]
    rfl
  rw [SingleBoard.hardware]
  dsimp only
  rw [run_bind_ok run_get]
  rcases List.mem_cons.mp hcls with hcls | hcls
  · rw [hcls]
    exact hram
  · rw [List.mem_singleton.mp hcls]
    exact hram

/-- A read of the memory or the console gets to the device. -/
theorem readTarget_allowed {dev offset flags : ℕ} (ha : a < 0x10000)
    (hresolved : resolve s.busmaps a = ⟨dev, offset, flags⟩) (hdev : Word.trunc 8 dev = dev)
    (hattached : s.unattached dev = false) (hread : flags &&& MAP_READABLE ≠ 0) :
    ∃ e, readTarget a s = .ok (dev, offset) (s.record e) := by
  have hids : (findMap s.busmaps a).devid = dev := congrArg Resolution.devid hresolved
  have hplace : Word.trunc 64 ((findMap s.busmaps a).offset + a % 128) = offset :=
    congrArg Resolution.offset hresolved
  have hflags : (findMap s.busmaps a).flags = flags := congrArg Resolution.flags hresolved
  have hreadable : (findMap s.busmaps a).readable = true := by
    rw [BusEntry.readable, bne_iff_ne, hflags]
    exact hread
  rw [← hids] at hattached
  refine ⟨.readHook (absoluteFromReladdr dev offset), ?_⟩
  rw [readTarget, run_bind_ok (entry_run ha s), run_bind_ok (findDevice_attached a hattached),
    run_bind_ok run_get, hreadable]
  simp only [Bool.not_true, Bool.and_false, Bool.false_eq_true, if_false, hids, hplace, hdev]
  rfl

end Memory

theorem read8_memory (h : Realizes m s c) (pc : ℕ) (ha : a < 0x10000)
    (hmem : (m.block (a / 128)).isMemory = true) :
    ∃ e, cpuRead8 m.hardware pc a s = .ok (c.mem a) (s.record e) := by
  have hback := h.backed ha hmem
  obtain ⟨e, he⟩ := readTarget_allowed ha hback.resolved hback.devid hback.attached
    (Block.readable_memory hmem)
  refine ⟨e, ?_⟩
  rw [cpuRead8, run_bind_ok he, ← h.memory a ha hmem]
  exact Backed.read pc hback.buffered hback.inside

theorem read16_memory (h : Realizes m s c) (pc : ℕ) (ha : a < 0x10000)
    (hmem : (m.block (a / 128)).isMemory = true) (ha' : a + 1 < 0x10000)
    (hnext : (m.block ((a + 1) / 128)).isMemory = true) :
    Corresponds (Realizes m) (cpuRead16 m.hardware pc a s)
      (.ok (c.mem a ++ c.mem (a + 1)) c : EStateM.Result Stop (Computer m) U16) := by
  have hback := h.backed ha hmem
  have hback' := h.backed ha' hnext
  have hplace := m.place_succ hmem hnext
  obtain ⟨e, he⟩ := readTarget_allowed ha hback.resolved hback.devid hback.attached
    (Block.readable_memory hmem)
  have hsmall : (m.place a).2 + 1 < 2 ^ 64 := by
    have := m.place_le a
    omega
  have hhigh := Backed.read (s := s.record e) (m := m) pc hback.buffered hback.inside
  have hlow := Backed.read (s := s.record e) (m := m) pc hback'.buffered hback'.inside
  rw [hplace] at hlow
  rw [cpuRead16, run_bind_ok he]
  dsimp only
  rw [Word.trunc_of_lt hsmall, run_bind_ok hhigh, run_bind_ok hlow, ← h.memory a ha hmem,
    ← h.memory (a + 1) ha' hnext, hplace]
  exact ⟨rfl, h.record e⟩

/-- A word at the end of a memory. -/
theorem read16_end (h : Realizes m s c) (pc : ℕ) (ha : a < 0x10000)
    (hmem : (m.block (a / 128)).isMemory = true)
    (hend : ¬(a + 1 < 0x10000 ∧ (m.block ((a + 1) / 128)).isMemory = true)) :
    Corresponds (Realizes m) (cpuRead16 m.hardware pc a s)
      ((if m = .simple ∧ a + 1 < 0x10000 then return (← get).mem a ++ (0 : U8)
        else throw (.fatal .bufferRead) : ComputerM m U16) c) := by
  have hback := h.backed ha hmem
  obtain ⟨e, he⟩ := readTarget_allowed ha hback.resolved hback.devid hback.attached
    (Block.readable_memory hmem)
  have hsmall : (m.place a).2 + 1 < 2 ^ 64 := by
    have := m.place_le a
    omega
  have hhigh := Backed.read (s := s.record e) (m := m) pc hback.buffered hback.inside
  rw [cpuRead16, run_bind_ok he]
  dsimp only
  rw [Word.trunc_of_lt hsmall, run_bind_ok hhigh]
  rcases SingleBoard.memory_end ha hmem hend with hsize | ⟨rfl, hconsole⟩
  · have hnone : ¬(m = .simple ∧ a + 1 < 0x10000) := by
      rintro ⟨rfl, ha'⟩
      exact absurd hsize (not_le.mpr ha')
    have hout : ¬(m.place a).2 + 1 < (s.record e).size (m.place a).1 :=
      not_lt.mpr (by rwa [Board.size, h.record e |>.devices])
    have hlow := Backed.read_outside (s := s.record e) (m := m) pc hback.buffered hout
    rw [if_neg hnone, run_bind_error hlow]
    exact ⟨rfl, h.record e⟩
  · have hin : a + 1 < (s.record e).size 1 := by
      rw [Board.size, h.record e |>.devices, hconsole]
      decide
    have hbuffer := Backed.read (s := s.record e) (m := .simple) pc hback.buffered hin
    have hlow : SingleBoard.simple.hardware.read pc (SingleBoard.simple.place a).1
        ((SingleBoard.simple.place a).2 + 1) (s.record e) = .ok (0 : U8) (s.record e) := by
      rw [← h.hidden rfl, ← hconsole]
      exact hbuffer
    rw [if_pos ⟨rfl, by omega⟩, run_bind_ok run_get, run_bind_ok hlow, ← h.memory a ha hmem]
    exact ⟨rfl, h.record e⟩

theorem write8_memory (h : Realizes m s c) (pc : ℕ) (v : U8) (ha : a < 0x10000)
    (hmem : (m.block (a / 128)).isMemory = true)
    (hallowed : s.cpuRunning = false ∨ (m.block (a / 128)).flags &&& MAP_WRITABLE ≠ 0) :
    ∃ e, cpuWrite8 m.hardware pc a v s =
      .ok () ((s.setMem (m.place a).1 (m.place a).2 v).record e) := by
  have hback := h.backed ha hmem
  obtain ⟨e, he⟩ := cpuWrite8_resolved m.hardware pc ha v hback.resolved hback.attached hallowed
  refine ⟨e, ?_⟩
  rw [he, hback.devid]
  rw [run_bind_ok (Backed.write pc v hback.buffered hback.inside)]
  rfl

/-- A byte of the memory is behind one address. -/
theorem poke (h : Realizes m s c) (v : U8) (ha : a < 0x10000)
    (hmem : (m.block (a / 128)).isMemory = true) :
    Realizes m (s.setMem (m.place a).1 (m.place a).2 v) (c.poke a v) :=
  { h with
    memory := by
      intro a' ha' hmem'
      rw [Computer.poke]
      dsimp only
      by_cases heq : a' = a
      · subst heq
        rw [Function.update_self]
        exact if_pos ⟨rfl, rfl⟩
      · rw [Function.update_of_ne heq, ← h.memory a' ha' hmem']
        apply if_neg
        rintro ⟨hdev, hoffset⟩
        exact heq (m.place_inj hmem' hmem (Prod.ext hdev hoffset))
    hidden := by
      rintro rfl
      rw [← h.hidden rfl]
      apply if_neg
      rintro ⟨-, rfl : 0xFF00 = a⟩
      cases hmem }

/-! ### The console -/

theorem console_backed (h : Realizes m s c) (ha : a < 0x10000) (hb : m.block (a / 128) = .console) :
    resolve s.busmaps a = ⟨m.consoleId, a % 128, MAP_READWRITE⟩ ∧
      Word.trunc 8 m.consoleId = m.consoleId ∧ s.unattached m.consoleId = false := by
  refine ⟨?_, by cases m <;> rfl, ?_⟩
  · rw [resolve, h.entry ha, SingleBoard.entry, hb, BusEntry.resolution]
    dsimp only [Block.flags]
    rw [Nat.zero_add, Word.trunc_of_lt (by omega)]
  · rw [Board.unattached, h.devices]
    cases m <;> rfl

theorem console_read (pc offset : ℕ) : Simulates (Realizes m)
    (m.hardware.read pc m.consoleId offset) (Computer.onConsole (m.consoleRead offset)) where
  run s c h := by
    have hcls : (s.devices.getD m.consoleId ⟨.null, 0⟩).cls = .console := by
      rw [h.devices]
      cases m <;> rfl
    rw [SingleBoard.hardware]
    dsimp only
    rw [run_bind_ok run_get, hcls]
    exact h.onTerminal _

theorem console_write (pc offset : ℕ) (v : U8) : Simulates (Realizes m)
    (m.hardware.write pc m.consoleId offset v) (Computer.onConsole (m.consoleWrite offset v)) where
  run s c h := by
    have hcls : (s.devices.getD m.consoleId ⟨.null, 0⟩).cls = .console := by
      rw [h.devices]
      cases m <;> rfl
    rw [SingleBoard.hardware]
    dsimp only
    rw [run_bind_ok run_get, hcls]
    exact h.onTerminal _

/-! ### Where nothing answers -/

/-- No data is behind these blocks. -/
def Silent (b : Block) : Prop := b = .sink ∨ b = .vacant

theorem silent_target (h : Realizes m s c) (ha : a < 0x10000) (hb : Silent (m.block (a / 128))) :
    (findMap s.busmaps a).readable = false ∧ (findMap s.busmaps a).writable = false ∧
      ∀ t : Board Terminal, t.devices = s.devices →
        (t.devices.getD (s.target a).1 ⟨.null, 0⟩).cls = .null := by
  have hentry := h.entry ha
  rw [SingleBoard.entry] at hentry
  rcases hb with hb | hb <;> rw [hb] at hentry
  · obtain rfl := SingleBoard.eq_smii_of_sink hb
    change findMap s.busmaps a = ⟨3, 0, MAP_IGNOREWRITE⟩ at hentry
    refine ⟨by rw [hentry]; decide, by rw [hentry]; decide, fun t ht => ?_⟩
    rw [ht, Board.target, hentry, Board.unattached, h.devices]
    rfl
  · change findMap s.busmaps a = ⟨INVALID_DEVID, 0, 0⟩ at hentry
    refine ⟨by rw [hentry]; decide, by rw [hentry]; decide, fun t ht => ?_⟩
    have hnone : s.unattached INVALID_DEVID = true := rfl
    rw [ht, Board.target, hentry, hnone, h.devices]
    cases m <;> rfl

theorem silent_read (pc offset : ℕ) {dev : ℕ}
    (hcls : (s.devices.getD dev ⟨.null, 0⟩).cls = .null) :
    m.hardware.read pc dev offset s = .ok 0xff s := by
  rw [SingleBoard.hardware]
  dsimp only
  rw [run_bind_ok run_get, hcls]
  rfl

theorem silent_write (pc offset : ℕ) (v : U8) {dev : ℕ}
    (hcls : (s.devices.getD dev ⟨.null, 0⟩).cls = .null) :
    m.hardware.write pc dev offset v s = .ok () s := by
  rw [SingleBoard.hardware]
  dsimp only
  rw [run_bind_ok run_get, hcls]
  rfl

/-- A read stops the emulator where a fault does, and otherwise gets through. -/
theorem silent_readTarget (h : Realizes m s c) (ha : a < 0x10000)
    (hb : Silent (m.block (a / 128))) : if c.running && !c.debugEnabled
      then ∃ t, readTarget a s = .error (.exit 2) t ∧ Realizes m t c
      else ∃ t, readTarget a s = .ok (s.target a) t ∧ Realizes m t c := by
  obtain ⟨hreadable, -, -⟩ := h.silent_target ha hb
  have hstops : s.readStops a = (c.running && !c.debugEnabled) := by
    rw [Board.readStops, h.faultStops, hreadable]
    simp
  have hkeeps := (readTarget_keeps (I := (Realizes m · c)) a).keeps s h
  split
  case isTrue hstop =>
    obtain ⟨t, ht⟩ := readTarget_error ha (hstops.trans hstop)
    rw [ht] at hkeeps
    exact ⟨t, ht, hkeeps⟩
  case isFalse hgo =>
    obtain ⟨monitor, ht⟩ := readTarget_ok ha (hstops.trans (Bool.eq_false_iff.mpr hgo))
    rw [ht] at hkeeps
    exact ⟨_, ht, hkeeps⟩

/-- Nothing comes from where nothing answers, unless the fault ends the emulator. -/
theorem silent_read8 (h : Realizes m s c) (pc : ℕ) (ha : a < 0x10000)
    (hb : Silent (m.block (a / 128))) :
    Corresponds (Realizes m) (cpuRead8 m.hardware pc a s) ((do Computer.fault; return 0xff) c) := by
  have htarget := h.silent_readTarget ha hb
  have hfault := Computer.fault_run c
  split at htarget
  case isTrue hstop =>
    obtain ⟨t, ht, hrel⟩ := htarget
    rw [if_pos hstop] at hfault
    rw [cpuRead8, run_bind_error ht, run_bind_error hfault]
    exact ⟨rfl, hrel⟩
  case isFalse hgo =>
    obtain ⟨t, ht, hrel⟩ := htarget
    obtain ⟨-, -, hcls⟩ := h.silent_target ha hb
    rw [if_neg hgo] at hfault
    rw [cpuRead8, run_bind_ok ht, run_bind_ok hfault]
    dsimp only
    rw [silent_read pc _ (hcls t (hrel.devices.trans h.devices.symm))]
    exact ⟨rfl, hrel⟩

theorem silent_read16 (h : Realizes m s c) (pc : ℕ) (ha : a < 0x10000)
    (hb : Silent (m.block (a / 128))) :
    Corresponds (Realizes m) (cpuRead16 m.hardware pc a s)
      ((do Computer.fault; return 0xffff) c) := by
  have htarget := h.silent_readTarget ha hb
  have hfault := Computer.fault_run c
  split at htarget
  case isTrue hstop =>
    obtain ⟨t, ht, hrel⟩ := htarget
    rw [if_pos hstop] at hfault
    rw [cpuRead16, run_bind_error ht, run_bind_error hfault]
    exact ⟨rfl, hrel⟩
  case isFalse hgo =>
    obtain ⟨t, ht, hrel⟩ := htarget
    obtain ⟨-, -, hcls⟩ := h.silent_target ha hb
    have hnull := hcls t (hrel.devices.trans h.devices.symm)
    rw [if_neg hgo] at hfault
    rw [cpuRead16, run_bind_ok ht, run_bind_ok hfault]
    dsimp only
    rw [run_bind_ok (silent_read pc _ hnull), run_bind_ok (silent_read pc _ hnull)]
    exact ⟨rfl, hrel⟩

instance doFault (named type : ℕ) :
    Simulates (Realizes m) (Access.doFault named type) Computer.fault where
  run s c h := by
    rw [Access.doFault, run_bind_ok run_get, h.running, Computer.fault_run]
    cases hr : c.running with
    | false => exact ⟨rfl, h⟩
    | true =>
      rw [if_pos rfl, Access.fault_run named type s (h.running.trans hr), h.faultStops, hr]
      split
      · exact ⟨rfl, h.record _⟩
      · exact ⟨rfl, { h with }⟩

theorem recorded (e : BusEvent) : Simulates (Realizes m)
    (modify (Board.record e) : BoardM Terminal Unit) (Pure.pure () : ComputerM m Unit) where
  run _ _ h := ⟨rfl, h.record e⟩

/-- The write hook comes after the write. -/
theorem thenRecorded {write : BoardM Terminal Unit} {op : ComputerM m Unit} (e : BusEvent)
    (h : Corresponds (Realizes m) (write s) (op c)) :
    Corresponds (Realizes m) ((write >>= fun _ => modify (Board.record e)) s) (op c) := by
  cases hs : write s with
  | ok _ t =>
    rw [hs] at h
    rw [run_bind_ok hs]
    cases hc : op c with
    | ok _ d =>
      rw [hc] at h
      exact ⟨rfl, h.2.record e⟩
    | error x d => rw [hc] at h; exact h.elim
  | error x t =>
    rw [hs] at h
    rw [run_bind_error hs]
    exact h

/-- A write that the map does not allow, to a device that keeps nothing if the CPU is off. -/
theorem writeChecked_denied (h : Realizes m s c) (pc : ℕ) (v : U8) {dev offset : ℕ} {map : BusEntry}
    (hmap : map.writable = false)
    (hkeeps : c.running = false → (s.devices.getD dev ⟨.null, 0⟩).cls = .null) :
    Corresponds (Realizes m) (writeChecked m.hardware pc a dev offset map v s)
      ((if map.ignoreWrite then Pure.pure () else Computer.fault : ComputerM m Unit) c) := by
  rw [writeChecked, run_bind_ok run_get, hmap, h.running, Bool.or_false]
  cases hr : c.running with
  | false =>
    rw [Bool.not_false, if_pos rfl, silent_write pc offset v (hkeeps hr)]
    split
    · exact ⟨rfl, h⟩
    · rw [Computer.fault_run, hr]
      exact ⟨rfl, h⟩
  | true =>
    rw [Bool.not_true, if_neg Bool.false_ne_true]
    split
    · exact ⟨rfl, h⟩
    · exact (doFault a FAULT_NOT_WRITABLE).run s c h

theorem rom_write (h : Realizes m s c) (pc : ℕ) (v : U8) {quiet : Bool} (ha : a < 0x10000)
    (hb : m.block (a / 128) = .rom quiet) (hr : c.running = true) :
    Corresponds (Realizes m) (cpuWrite8 m.hardware pc a v s)
      ((if quiet then Pure.pure () else Computer.fault : ComputerM m Unit) c) := by
  have hback := h.backed ha (by rw [hb]; rfl)
  have hflags : (findMap s.busmaps a).flags = (m.block (a / 128)).flags := by
    rw [h.entry ha, SingleBoard.entry_flags]
  have hwritable : (findMap s.busmaps a).writable = false := by
    rw [BusEntry.writable, hflags, hb]
    cases quiet <;> rfl
  have hignore : (findMap s.busmaps a).ignoreWrite = quiet := by
    rw [BusEntry.ignoreWrite, hflags, hb]
    cases quiet <;> rfl
  have hattached : s.unattached (findMap s.busmaps a).devid = false := by
    rw [show (findMap s.busmaps a).devid = (m.place a).1 from congrArg Resolution.devid hback.resolved]
    exact hback.attached
  rw [cpuWrite8, run_bind_ok (entry_run ha s), run_bind_ok (findDevice_attached a hattached)]
  have hdenied (dev offset : ℕ) : Corresponds (Realizes m)
      (writeChecked m.hardware pc a dev offset (findMap s.busmaps a) v s) _ :=
    h.writeChecked_denied pc v hwritable fun hoff => absurd (hr.symm.trans hoff) (by decide)
  rw [hignore] at hdenied
  exact thenRecorded _ (hdenied _ _)

theorem sink_write (h : Realizes m s c) (pc : ℕ) (v : U8) (ha : a < 0x10000)
    (hb : m.block (a / 128) = .sink) :
    Corresponds (Realizes m) (cpuWrite8 m.hardware pc a v s)
      ((Pure.pure () : ComputerM m Unit) c) := by
  have hentry := h.entry ha
  rw [SingleBoard.entry, hb] at hentry
  obtain rfl := SingleBoard.eq_smii_of_sink hb
  have hattached : s.unattached 3 = false := by
    rw [Board.unattached, h.devices]
    rfl
  rw [cpuWrite8, run_bind_ok (entry_run ha s), hentry, run_bind_ok (findDevice_attached a hattached)]
  have hfixed : (⟨3, 0, MAP_IGNOREWRITE⟩ : BusEntry).writable = false := rfl
  exact thenRecorded _ (h.writeChecked_denied pc v hfixed fun _ => by
    rw [h.devices]
    rfl)

theorem vacant_write (h : Realizes m s c) (pc : ℕ) (v : U8) (ha : a < 0x10000)
    (hb : m.block (a / 128) = .vacant) :
    Corresponds (Realizes m) (cpuWrite8 m.hardware pc a v s) (Computer.fault c) := by
  have hentry := h.entry ha
  rw [SingleBoard.entry, hb] at hentry
  have hnone : ∀ t : Board Terminal, t.unattached INVALID_DEVID = true := fun _ => rfl
  have hfind : (findDevice a INVALID_DEVID : BoardM Terminal ℕ) =
      (do Access.doFault a FAULT_NO_RESPONSE; return 0) := by
    funext t
    rw [findDevice, run_bind_ok run_get, if_pos (hnone t)]
  rw [cpuWrite8, run_bind_ok (entry_run ha s), hentry]
  dsimp only
  rw [hfind, bind_assoc]
  -- the fault of the missing device is followed by that of the write
  have hfirst := (doFault (m := m) a FAULT_NO_RESPONSE).run s c h
  have hfault := Computer.fault_run c
  rw [hfault] at hfirst ⊢
  split at hfault
  case isTrue hstop =>
    rw [if_pos hstop] at hfirst ⊢
    obtain ⟨t, hrun, hrel⟩ := hfirst.of_error
    rw [run_bind_error hrun]
    exact ⟨rfl, hrel⟩
  case isFalse hgo =>
    rw [if_neg hgo] at hfirst ⊢
    obtain ⟨t, hrun, hrel⟩ := hfirst.of_ok
    rw [run_bind_ok hrun, ← hfault]
    have hfixed : (⟨INVALID_DEVID, 0, 0⟩ : BusEntry).writable = false := rfl
    exact thenRecorded _ (hrel.writeChecked_denied pc v hfixed fun _ => by
      rw [hrel.devices]
      cases m <;> rfl)

/-! ### The operations of the bus -/

theorem read8 (pc : ℕ) : Simulates (Realizes m) (cpuRead8 m.hardware pc a)
    (Computer.read8 a) where
  run s c h := by
    rw [Computer.read8]
    by_cases ha : a < 0x10000
    · rw [if_pos ha]
      cases hb : m.block (a / 128) with
      | ram | rom quiet =>
        obtain ⟨e, he⟩ := h.read8_memory pc ha (by rw [hb]; rfl)
        rw [he]
        exact ⟨rfl, h.record e⟩
      | console =>
        obtain ⟨hresolved, hid, hattached⟩ := h.console_backed ha hb
        obtain ⟨e, he⟩ := readTarget_allowed ha hresolved hid hattached (by decide)
        rw [cpuRead8, run_bind_ok he]
        exact (console_read pc (a % 128)).run _ _ (h.record e)
      | sink | vacant => exact h.silent_read8 pc ha (by rw [hb, Silent]; simp)
    · rw [if_neg ha, cpuRead8, readTarget, run_bind_error (run_bind_error (entry_overran ha))]
      exact ⟨rfl, h⟩

theorem read16 (pc : ℕ) : Simulates (Realizes m) (cpuRead16 m.hardware pc a)
    (Computer.read16 a) where
  run s c h := by
    rw [Computer.read16]
    by_cases ha : a < 0x10000
    · rw [if_pos ha]
      cases hb : m.block (a / 128) with
      | ram | rom quiet =>
        have hmem : (m.block (a / 128)).isMemory = true := by rw [hb]; rfl
        dsimp only
        by_cases hnext : a + 1 < 0x10000 ∧ (m.block ((a + 1) / 128)).isMemory = true
        · rw [if_pos hnext]
          exact h.read16_memory pc ha hmem hnext.1 hnext.2
        · rw [if_neg hnext]
          exact h.read16_end pc ha hmem hnext
      | console =>
        obtain ⟨hresolved, hid, hattached⟩ := h.console_backed ha hb
        obtain ⟨e, he⟩ := readTarget_allowed ha hresolved hid hattached (by decide)
        rw [cpuRead16, run_bind_ok he]
        dsimp only
        rw [Word.trunc_of_lt (show a % 128 + 1 < 2 ^ 64 by omega)]
        exact ((console_read pc (a % 128)).seq fun high =>
          (console_read pc (a % 128 + 1)).seq fun low => Simulates.pure _).run _ _ (h.record e)
      | sink | vacant => exact h.silent_read16 pc ha (by rw [hb, Silent]; simp)
    · rw [if_neg ha, cpuRead16, readTarget, run_bind_error (run_bind_error (entry_overran ha))]
      exact ⟨rfl, h⟩

theorem write8 (pc : ℕ) (v : U8) : Simulates (Realizes m)
    (cpuWrite8 m.hardware pc a v) (Computer.write8 a v) where
  run s c h := by
    rw [Computer.write8]
    by_cases ha : a < 0x10000
    · rw [if_pos ha]
      cases hb : m.block (a / 128) with
      | ram =>
        obtain ⟨e, he⟩ := h.write8_memory pc v ha (by rw [hb]; rfl) (.inr (by rw [hb]; decide))
        rw [he]
        exact ⟨rfl, (h.poke v ha (by rw [hb]; rfl)).record e⟩
      | rom quiet =>
        have hmem : (m.block (a / 128)).isMemory = true := by rw [hb]; rfl
        dsimp only
        rw [run_bind_ok run_get]
        cases hr : c.running with
        | false =>
          obtain ⟨e, he⟩ := h.write8_memory pc v ha hmem (.inl (h.running.trans hr))
          rw [he]
          exact ⟨rfl, (h.poke v ha hmem).record e⟩
        | true =>
          have hwrite := h.rom_write pc v ha hb hr
          rw [Bool.not_true, if_neg Bool.false_ne_true]
          cases quiet with
          | true => exact hwrite
          | false =>
            rw [if_neg Bool.false_ne_true, Computer.fault, run_bind_ok run_get, if_pos hr] at hwrite
            exact hwrite
      | console =>
        obtain ⟨hresolved, hid, hattached⟩ := h.console_backed ha hb
        obtain ⟨e, he⟩ := cpuWrite8_resolved m.hardware pc ha v hresolved hattached
          (.inr (show MAP_READWRITE &&& MAP_WRITABLE ≠ 0 by decide))
        rw [he]
        dsimp only
        rw [hid, ← bind_pure_unit (x := Computer.onConsole (m.consoleWrite (a % 128) v))]
        exact ((console_write pc (a % 128) v).seq fun _ => recorded e).run s c h
      | sink => exact h.sink_write pc v ha hb
      | vacant => exact h.vacant_write pc v ha hb
    · rw [if_neg ha, cpuWrite8, run_bind_error (entry_overran ha)]
      exact ⟨rfl, h⟩

theorem simError : Simulates (Realizes m) Access.simError Computer.simError where
  run s c h := by
    rw [Access.simError, run_bind_ok run_get, h.debugEnabled, Computer.simError_run]
    split
    · exact ⟨rfl, { h with }⟩
    · exact ⟨rfl, h⟩

end Realizes

/-- What a program can do to the computer and to the board that realizes it. -/
instance realizes_bus (m : SingleBoard) :
    BusSimulates (β := Assembled m) (γ := Computer m) (Realizes m) where
  cpuRead8 pc _ := Realizes.read8 pc
  cpuRead16 pc _ := Realizes.read16 pc
  cpuWrite8 pc _ v := Realizes.write8 pc v
  simError := Realizes.simError
  cpuIsRunning _ _ h := { h with running := rfl }

/-! ## Sessions -/

/-- The stores of the loader, then `cpu_reset`, and whatever comes after it. -/
def session {β : Type} [Bus β] (image : List Loader.Store) (es : List Event) : CpuM β Unit := do
  runAll (fun x : Loader.Store => Exec09.write8 x.addr x.value.toNat) image
  cpuReset
  runAll Event.perform es

theorem session_tracks {β γ : Type} {B : β → γ → Prop} [Bus β] [Bus γ] [BusSimulates B]
    (image : List Loader.Store) (es : List Event) : Tracks B (session image es) (session image es) := by
  have hstores := runAll_simulates (h := fun x : Loader.Store =>
    write8_tracks (B := B) x.addr x.value.toNat) image
  exact hstores.seq fun _ => cpuReset_tracks.seq fun _ => runAll_simulates es

/-- The machine that is set up before the session. -/
def SingleBoard.emulate (m : SingleBoard) (bootRom : ℕ → U8) (image : List Loader.Store)
    (es : List Event) : CpuM (Assembled m) Unit := do
  onBus (m.init bootRom)
  session image es

/-- The computer when it is switched on. -/
def Computer.start (m : SingleBoard) (bootRom : ℕ → U8) (debug : Bool) (t : Terminal) :
    Computer m where
  mem a :=
    match m.block (a / 128) with
    | .rom _ => bootRom (m.place a).2
    | _ => 0
  running := false
  debugEnabled := debug
  console := t

/-- What the setup leaves is the computer. -/
theorem init_realizes {m : SingleBoard} {bootRom : ℕ → U8} {debug : Bool} {t : Terminal}
    {s : Board Terminal} (h : Stage debug m.devices m.busmaps (m.contents bootRom) t s) :
    Realizes m s (Computer.start m bootRom debug t) where
  devices := h.devices
  busmaps := h.busmaps
  machineFault := h.machineFault
  running := h.cpuRunning
  debugEnabled := h.debugEnabled
  console := h.priv
  memory := by
    intro a ha hmem
    have hrom := SingleBoard.rom_place hmem (by omega)
    rw [h.mem, SingleBoard.contents, Computer.start]
    dsimp only
    cases hb : m.block (a / 128) with
    | ram => exact if_neg fun hdev => hrom.mp hdev hb
    | rom quiet => exact if_pos (hrom.mpr (by rw [hb]; exact Block.noConfusion))
    | console | sink | vacant => rw [hb] at hmem; cases hmem
  hidden := by
    rintro rfl
    rw [h.mem]
    rfl

/-- The machine and the computer go through the session alike. -/
theorem emulate_corresponds (m : SingleBoard) (bootRom : ℕ → U8) (debug : Bool) (t : Terminal)
    (image : List Loader.Store) (es : List Event) :
    Corresponds (OverBus (Realizes m))
      (m.emulate bootRom image es (Cpu.powerOn (Board.start .fault debug t)))
      (session image es (Cpu.powerOn (Computer.start m bootRom debug t))) := by
  have hinit := m.init_stage bootRom debug t (Board.start .fault debug t)
    ⟨rfl, rfl, rfl, rfl, rfl, rfl, rfl⟩
  have hsession := session_tracks (β := Assembled m) (B := Realizes m) image es
  cases hrun : m.init bootRom (Board.start .fault debug t) with
  | error e s => rw [hrun] at hinit; exact hinit.elim
  | ok _ s =>
    rw [hrun] at hinit
    have hbus : onBus (β := Assembled m) (m.init bootRom)
        (Cpu.powerOn (Board.start .fault debug t)) = .ok () (Cpu.powerOn s) :=
      onBus_rebus_ok (β := Assembled m) (s := Cpu.powerOn s) hrun
    have hemulate : m.emulate bootRom image es (Cpu.powerOn (Board.start .fault debug t)) =
        session (β := Assembled m) image es (Cpu.powerOn s) := run_bind_ok hbus
    rw [hemulate]
    exact hsession.run (Cpu.powerOn (β := Assembled m) s) _ ⟨_, init_realizes hinit, rfl⟩

/-- Why a program stopped, if it did. -/
def stopReason {σ α : Type} : EStateM.Result Stop σ α → Option Stop
  | .ok _ _ => none
  | .error e _ => some e

/-- The processor without the machine behind it. -/
def Cpu.own {β : Type} (s : Cpu β) : Cpu Unit := s.rebus ()

/-- Whatever is loaded and run, the machine does what the computer does: it stops for the same
reason or not at all, with the same registers, cycles and accesses, the same characters from and to
the console, and the same memory. -/
theorem emulate_computer (m : SingleBoard) (bootRom : ℕ → U8) (debug : Bool) (t : Terminal)
    (image : List Loader.Store) (es : List Event) :
    let r := m.emulate bootRom image es (Cpu.powerOn (Board.start .fault debug t))
    let q := session image es (Cpu.powerOn (Computer.start m bootRom debug t))
    stopReason r = stopReason q ∧
      Cpu.own (finalState r) = Cpu.own (finalState q) ∧
      Board.priv (finalState r).bus = (finalState q).bus.console ∧
      ∀ a < 0x10000, (m.block (a / 128)).isMemory = true →
        Board.mem (finalState r).bus (m.place a).1 (m.place a).2 = (finalState q).bus.mem a := by
  intro r q
  have h : Corresponds (OverBus (Realizes m)) r q := emulate_corresponds m bootRom debug t image es
  have hreason : stopReason r = stopReason q := by
    cases hq : q with
    | ok b s =>
      rw [hq] at h
      obtain ⟨s', hr, -⟩ := h.of_ok
      rw [hr]
      rfl
    | error e s =>
      rw [hq] at h
      obtain ⟨s', hr, -⟩ := h.of_error
      rw [hr]
      rfl
  obtain ⟨b, hb, hcpu⟩ := h.final
  rw [hcpu]
  exact ⟨hreason, rfl, hb.console, hb.memory⟩

end Exec09.Machines
