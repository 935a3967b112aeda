import Exec09.Bus.Setup
import Exec09.Devices.Disk

/-! # The eon machine

Sixteen pages of 4K, each with four MMU registers: the device mapped there,
the 4K region of that device, the permissions, and one register without use.
The registers and the bus map hold the same information twice; `mmu_write`
changes a register and maps the page again, and `mmu_reset_complete` reads the
registers off the map that the setup of the machine has left.
-/
namespace Exec09.Eon
open Foundation

structure Priv where
  mmuRegs : ℕ → ℕ → U8
  disk : Disk
  /-- The characters on standard input, and those written, latest first. -/
  input : List U8
  output : List U8

abbrev M := BoardM Priv

def setReg (page reg : ℕ) (val : U8) (s : Board Priv) : Board Priv :=
  { s with priv := { s.priv with
      mmuRegs := fun p r => if p = page ∧ r = reg then val else s.priv.mmuRegs p r } }

/-- The mapping that the registers of a page ask for. -/
def pageCall (page : ℕ) (regs : ℕ → U8) : MapCall where
  addr := page * 0x1000
  devid := (regs 0).toNat
  offset := (regs 1).toNat * 0x1000
  len := 0x1000
  flags := (regs 2).toNat &&& MAP_READWRITE

def mmuWrite (addr : ℕ) (val : U8) : M Unit := do
  let page := addr / 4 % 16
  let reg := addr % 4
  modify (setReg page reg val)
  let s ← get
  mapBus (pageCall page (s.priv.mmuRegs page))

/-- The registers `fault_addr` and `fault_type` are never set. -/
def mmuRead (addr : ℕ) : M U8 := do
  let s ← get
  if addr = 0x60 ∨ addr = 0x61 ∨ addr = 0x62 then return 0
  else return s.priv.mmuRegs (addr / 4 % 16) (addr % 4)

/-- The loop of `mmu_reset`, from `page` on. -/
def mmuResetFrom : (count page : ℕ) → M Unit
  | 0, _ => pure ()
  | count + 1, page => do
    mmuWrite (page * 4) 0
    mmuWrite (page * 4 + 1) 0
    mmuWrite (page * 4 + 2) (BitVec.ofNat 8 MAP_READWRITE)
    mmuResetFrom count (page + 1)

def mmuReset (_ : ℕ) : M Unit := mmuResetFrom 16 0

/-- The second block of the page stands for the page. -/
def mmuResetComplete : M Unit :=
  modify fun s => { s with priv := { s.priv with
    mmuRegs := fun page reg =>
      let map := s.busmaps (4 + page * 32)
      if page < 16 then
        match reg with
        | 0 => BitVec.ofNat 8 map.devid
        | 1 => BitVec.ofNat 8 (map.offset / 0x1000)
        | 2 => BitVec.ofNat 8 (map.flags &&& MAP_READWRITE)
        | _ => s.priv.mmuRegs page reg
      else s.priv.mmuRegs page reg } }

def diskReset (_ : ℕ) : M Unit :=
  modify fun s => { s with priv := { s.priv with disk := s.priv.disk.reset } }

def eonInit (bootRom : ℕ → U8) : M Unit := do
  let mmu ← deviceAttach ⟨.mmu, 128⟩ mmuReset
  deviceDefine mmu 0 0xE000 128 (MAP_READWRITE + MAP_FIXED)
  let ram ← ramCreate 0x100000
  deviceDefine ram 0 0x0000 0x10000 MAP_READWRITE
  let rom ← romCreate bootRom 0x1C00
  deviceDefine rom 0 0xE400 0x1C00 MAP_READABLE
  let console ← deviceAttach ⟨.console, 128⟩ nullReset
  deviceDefine console 0 0xE100 128 MAP_READWRITE
  deviceDefine console 0 0xFF00 128 MAP_READWRITE
  let disk ← deviceAttach ⟨.disk, 4⟩ diskReset
  deviceDefine disk 0 0xE200 128 MAP_READWRITE

/-- `machine_init` for eon. -/
def init (bootRom : ℕ → U8) : M Unit := do
  machineInit (eonInit bootRom)
  mmuResetComplete

def consoleRead (addr : ℕ) : M U8 := do
  let s ← get
  match addr, s.priv.input with
  | 2, c :: rest =>
    modify fun s => { s with priv := { s.priv with input := rest } }
    return c
  | _, _ => return 0xff

def consoleWrite (addr : ℕ) (val : U8) : M Unit :=
  match addr with
  | 0 => modify fun s => { s with priv := { s.priv with output := val :: s.priv.output } }
  | 1 => throw (.exit val.toNat)
  | _ => pure ()

/-- `disk_write`; the RAM behind the drive has the number 2. -/
def diskWrite (addr : ℕ) (val : U8) : M Unit :=
  modify fun s =>
    let (disk, ram) := s.priv.disk.diskWrite addr val (s.mem 2)
    { s with
      priv := { s.priv with disk := disk }
      mem := fun d a => if d = 2 then ram a else s.mem d a }

def hardware : Hardware Priv where
  read _ dev offset := do
    let s ← get
    match (s.devices.getD dev ⟨.null, 0⟩).cls with
    | .ram | .rom => ramRead dev offset
    | .console => consoleRead offset
    | .mmu => mmuRead offset
    | .disk => return Disk.diskRead offset
    | _ => return 0xff
  write _ dev offset val := do
    let s ← get
    match (s.devices.getD dev ⟨.null, 0⟩).cls with
    | .ram | .rom => ramWrite dev offset val
    | .console => consoleWrite offset val
    | .mmu => mmuWrite offset val
    | .disk => diskWrite offset val
    | _ => pure ()

/-! ## What one register write does -/

variable {s : Board Priv}

theorem pageCall_aligned {page : ℕ} (hp : page < 16) (regs : ℕ → U8) :
    (pageCall page regs).Aligned := by
  have hreg : (regs 1).toNat < 2 ^ 8 := (regs 1).isLt
  constructor <;> simp only [pageCall] <;> omega

theorem mmuWrite_run (addr : ℕ) (val : U8) (s : Board Priv) :
    mmuWrite addr val s = .ok () ((setReg (addr / 4 % 16) (addr % 4) val s).mapped
      (pageCall (addr / 4 % 16)
        ((setReg (addr / 4 % 16) (addr % 4) val s).priv.mmuRegs (addr / 4 % 16)))) := by
  have hset : (modify (setReg (addr / 4 % 16) (addr % 4) val) : M Unit) s =
      .ok () (setReg (addr / 4 % 16) (addr % 4) val s) := rfl
  rw [mmuWrite, run_bind_ok hset, run_bind_ok run_get]
  exact mapBus_run (pageCall_aligned (Nat.mod_lt _ (by decide)) _) _

/-- The entry that the registers of a page give to block `b` of it. -/
def pageEntry (regs : ℕ → U8) (b : ℕ) : BusEntry :=
  ⟨(regs 0).toNat, (regs 1).toNat * 0x1000 + 128 * (b % 32), (regs 2).toNat &&& MAP_READWRITE⟩

theorem pageEntry_fixed (regs : ℕ → U8) (b : ℕ) : (pageEntry regs b).fixed = false := by
  simp [pageEntry, BusEntry.fixed, MAP_READWRITE, MAP_FIXED, Nat.and_assoc]

theorem pageCall_over (page : ℕ) (regs : ℕ → U8) (maps : BusMaps) (b : ℕ) :
    (pageCall page regs).layer.stamp BusEntry.fixed maps b =
      if b / 32 = page ∧ (maps b).fixed = false then pageEntry regs b else maps b := by
  have hreg : (regs 1).toNat < 2 ^ 8 := (regs 1).isLt
  have hflags : Word.trunc 8 ((regs 2).toNat &&& MAP_READWRITE) =
      (regs 2).toNat &&& MAP_READWRITE :=
    Word.trunc_of_lt (lt_of_le_of_lt Nat.and_le_right (by decide))
  have hcovers : (pageCall page regs).layer.covers b = decide (b / 32 = page) := by
    rw [Bool.eq_iff_iff]
    simp only [MapCall.layer, Bool.and_eq_true, decide_eq_true_eq]
    simp only [pageCall]
    omega
  by_cases hb : b / 32 = page
  · have hoff : Word.trunc 64 ((regs 1).toNat * 0x1000 + 128 * (b - page * 0x1000 / 128)) =
        (regs 1).toNat * 0x1000 + 128 * (b % 32) := by
      have hlt : (regs 1).toNat * 0x1000 + 128 * (b - page * 0x1000 / 128) < 2 ^ 64 := by omega
      rw [Word.trunc_of_lt hlt]
      omega
    have hvalue : (pageCall page regs).layer.value b = pageEntry regs b := by
      simp only [MapCall.layer, pageCall, pageEntry, hoff, hflags]
    simp [Layer.stamp, hcovers, hvalue, hb]
  · simp [Layer.stamp, hcovers, hb]

theorem mapped_pageCall (page : ℕ) (regs : ℕ → U8) (s : Board Priv) (b : ℕ) :
    (s.mapped (pageCall page regs)).busmaps b =
      if b / 32 = page ∧ (s.busmaps b).fixed = false then pageEntry regs b else s.busmaps b :=
  pageCall_over page regs s.busmaps b

/-! ## The setup -/

def unfixed (maps : BusMaps) : Prop := ∀ b, (maps b).fixed = false

theorem mmuWrite_unfixed (addr : ℕ) (val : U8) (devs : List Device) :
    Triple (fun s => ∃ maps, unfixed maps ∧ Board.Has devs maps (fun _ => True) s)
      (mmuWrite addr val)
      (fun _ s => ∃ maps, unfixed maps ∧ Board.Has devs maps (fun _ => True) s)
      (fun _ => False) := by
  rintro s ⟨maps, hmaps, hdevs, rfl, _⟩
  rw [mmuWrite_run]
  refine ⟨_, ?_, hdevs, rfl, trivial⟩
  intro b
  rw [mapped_pageCall]
  by_cases hb : b / 32 = addr / 4 % 16 ∧
      ((setReg (addr / 4 % 16) (addr % 4) val s).busmaps b).fixed = false
  · rw [if_pos hb, pageEntry_fixed]
  · rw [if_neg hb]
    exact hmaps b

theorem mmuResetFrom_unfixed (count page : ℕ) (devs : List Device) :
    Triple (fun s => ∃ maps, unfixed maps ∧ Board.Has devs maps (fun _ => True) s)
      (mmuResetFrom count page)
      (fun _ s => ∃ maps, unfixed maps ∧ Board.Has devs maps (fun _ => True) s)
      (fun _ => False) := by
  induction count generalizing page with
  | zero => exact Triple.pure _ fun s hs => hs
  | succ count ih =>
    apply (mmuWrite_unfixed _ _ devs).bind
    intro _
    apply (mmuWrite_unfixed _ _ devs).bind
    intro _
    apply (mmuWrite_unfixed _ _ devs).bind
    intro _
    exact ih (page + 1)

/-- The mappings of `eon_init`. -/
def setupCalls : List MapCall :=
  [⟨0xE000, 1, 0, 128, MAP_READWRITE + MAP_FIXED⟩, ⟨0x0000, 2, 0, 0x10000, MAP_READWRITE⟩,
    ⟨0xE400, 3, 0, 0x1C00, MAP_READABLE⟩, ⟨0xE100, 4, 0, 128, MAP_READWRITE⟩,
    ⟨0xFF00, 4, 0, 128, MAP_READWRITE⟩, ⟨0xE200, 5, 0, 128, MAP_READWRITE⟩]

def devices : List Device :=
  [⟨.null, 0⟩, ⟨.mmu, 128⟩, ⟨.ram, 0x100000⟩, ⟨.rom, 0x1C00⟩, ⟨.console, 128⟩, ⟨.disk, 4⟩]

/-- The map of eon after the setup. -/
def setupEntry (b : ℕ) : BusEntry :=
  if b = 0xE000 / 128 then ⟨1, 0, MAP_READWRITE + MAP_FIXED⟩
  else if b = 0xE100 / 128 ∨ b = 0xFF00 / 128 then ⟨4, 0, MAP_READWRITE⟩
  else if b = 0xE200 / 128 then ⟨5, 0, MAP_READWRITE⟩
  else if b < 0xE400 / 128 then ⟨2, 128 * b, MAP_READWRITE⟩
  else ⟨3, 128 * (b - 0xE400 / 128), MAP_READABLE⟩

theorem setupCalls_entry {maps : BusMaps} (hmaps : unfixed maps) {b : ℕ} (hb : b < 512) :
    Layer.lay BusEntry.fixed (setupCalls.map MapCall.layer) maps b = setupEntry b := by
  have hdecide : ∀ b < 512, (Layer.deciding BusEntry.fixed (setupCalls.map MapCall.layer) b).map
      (fun l => l.value b) = some (setupEntry b) := by decide +kernel
  rw [Layer.lay_apply _ (hmaps b), hdecide b hb]
  rfl

theorem diskReset_has (n : ℕ) {devs : List Device} {maps : BusMaps} {E : Board Priv → Prop} :
    Triple (Board.Has devs maps fun _ => True) (diskReset n)
      (fun _ => Board.Has devs maps fun _ => True) E :=
  Triple.modify fun _ h => ⟨h.devices, h.busmaps, trivial⟩

theorem mmuAttach_unfixed :
    Triple (Board.Has [⟨.null, 0⟩] initialBusmaps fun _ => True)
      (deviceAttach ⟨.mmu, 128⟩ mmuReset)
      (fun n s => n = 1 ∧ ∃ maps, unfixed maps ∧
        Board.Has [⟨.null, 0⟩, ⟨.mmu, 128⟩] maps (fun _ => True) s) (fun _ => False) := by
  apply deviceAttach_has (by decide)
  apply (mmuResetFrom_unfixed 16 0 [⟨.null, 0⟩, ⟨.mmu, 128⟩]).mono ?_ (fun _ _ h => h) (fun _ h => h)
  intro s hs
  exact ⟨initialBusmaps, fun b => by simp [initialBusmaps, BusEntry.fixed], hs⟩

theorem eonInit_has (bootRom : ℕ → U8) :
    Triple (Board.Has [⟨.null, 0⟩] initialBusmaps fun _ => True) (eonInit bootRom)
      (fun _ s => ∃ maps, unfixed maps ∧ Board.Has devices
        (Layer.lay BusEntry.fixed (setupCalls.map MapCall.layer) maps) (fun _ => True) s)
      (fun _ => False) := by
  apply Triple.value mmuAttach_unfixed
  apply Triple.exists_pre
  intro maps
  apply Triple.and_pre
  intro hmaps
  apply (deviceDefine_has (by decide)).bind
  intro _
  apply Triple.value (ramCreate_has (by decide))
  apply (deviceDefine_has (by decide)).bind
  intro _
  apply Triple.value (romCreate_has (by decide))
  apply (deviceDefine_has (by decide)).bind
  intro _
  apply Triple.value (deviceAttach_has (by decide) (nullReset_has _))
  apply (deviceDefine_has (by decide)).bind
  intro _
  apply (deviceDefine_has (by decide)).bind
  intro _
  apply Triple.value (deviceAttach_has (by decide) (diskReset_has _))
  apply (deviceDefine_has (by decide)).mono (fun _ h => h) ?_ (fun _ h => h)
  intro _ s hs
  exact ⟨maps, hmaps, hs⟩

/-- The machine after `machine_init`: the map of the setup, and registers that agree with it. -/
structure AfterSetup (s : Board Priv) : Prop where
  devices : s.devices = devices
  busmaps : ∀ b < 512, s.busmaps b = setupEntry b
  mmuRegs : ∀ p < 16,
    s.priv.mmuRegs p 0 = BitVec.ofNat 8 (setupEntry (4 + p * 32)).devid ∧
    s.priv.mmuRegs p 1 = BitVec.ofNat 8 ((setupEntry (4 + p * 32)).offset / 0x1000) ∧
    s.priv.mmuRegs p 2 = BitVec.ofNat 8 ((setupEntry (4 + p * 32)).flags &&& MAP_READWRITE)

theorem init_afterSetup (bootRom : ℕ → U8) :
    Triple (fun s => s.devices = []) (init bootRom) (fun _ => AfterSetup) (fun _ => False) := by
  have hmachine : Triple (fun s => s.devices = [] ∧ True) (machineInit (eonInit bootRom))
      (fun _ s => s.devices = devices ∧ ∀ b < 512, s.busmaps b = setupEntry b) (fun _ => False) := by
    apply machineInit_has (eonInit_has bootRom)
    rintro s ⟨maps, hmaps, hs⟩
    refine ⟨hs.devices, ?_⟩
    intro b hb
    change s.busmaps b = _
    rw [hs.busmaps, setupCalls_entry hmaps hb]
  apply (hmachine.mono (fun _ h => ⟨h, trivial⟩) (fun _ _ h => h) (fun _ h => h)).bind
  intro _
  apply Triple.modify
  rintro s ⟨hdevs, hmaps⟩
  refine ⟨hdevs, hmaps, ?_⟩
  intro p hp
  have hentry : s.busmaps (4 + p * 32) = setupEntry (4 + p * 32) := hmaps _ (by omega)
  simp [hp, hentry]

end Exec09.Eon
