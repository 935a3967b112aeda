import Exec09.Bus.Setup
import Exec09.Devices.Disk
import Exec09.Devices.Imux
import Exec09.Devices.IoExpand
import Exec09.Devices.Serial
import Exec09.Devices.SmallMmu
import Exec09.Devices.Timer

/-! # The eon2 machine

The RAM lies behind a small MMU. All other devices but the ROM are in the
slots of an I/O expander, which answers in the block at `0xFF00` as long as
the last slot of the MMU has not been mapped again.
-/
namespace Exec09.Eon2
open Foundation

structure Priv where
  mmu : SmallMmu
  expander : IoExpand
  /-- The serial ports, by device number. -/
  ports : ℕ → SerialPort
  host : Host
  disk : Disk
  imux : Imux
  lines : IrqLines
  oscillator : Hwtimer

abbrev M := BoardM Priv

/-- A program of the small MMU, which writes the map of the machine. -/
def onMmu {α : Type} (m : SmallMmu.M α) : M α := fun s =>
  match m (s.priv.mmu, s.busmaps) with
  | .ok a (mmu, maps) => .ok a { s with busmaps := maps, priv := { s.priv with mmu := mmu } }
  | .error e (mmu, maps) => .error e { s with busmaps := maps, priv := { s.priv with mmu := mmu } }

def setPriv (f : Priv → Priv) : M Unit := modify fun s => { s with priv := f s.priv }

/-! ## Initialisation -/

def smallMmuCreate (realdev : ℕ) : M ℕ := do
  setPriv fun p => { p with mmu := { p.mmu with realdev := realdev } }
  deviceAttach ⟨.smallMmu, 16⟩ fun _ => onMmu SmallMmu.reset

/-- No slot is attached yet, so the reset has nothing to pass on. -/
def ioexpandCreate : M ℕ := do
  setPriv fun p => { p with expander := IoExpand.empty }
  deviceAttach ⟨.ioexpand, 128⟩ nullReset

/-- `ioexpand_attach` to the only expander. -/
def ioexpandAttach (slot offset dev : ℕ) : M Unit :=
  setPriv fun p => { p with expander := p.expander.attach slot offset dev }

def setPort (dev : ℕ) (f : SerialPort → SerialPort) (p : Priv) : Priv :=
  { p with ports := Function.update p.ports dev (f (p.ports dev)) }

/-- `serial_create` and `hostfile_create`, on two descriptors. -/
def portCreate (fin fout : ℕ) : M ℕ :=
  deviceAttach ⟨.serial, 4⟩ fun dev =>
    setPriv (setPort dev fun p => { p with fin := fin, fout := fout }.reset)

def diskReset (_ : ℕ) : M Unit := setPriv fun p => { p with disk := p.disk.reset }

def imuxCreate (cpuLine : ℕ) : M ℕ :=
  deviceAttach ⟨.imux, 128⟩ fun _ =>
    setPriv fun p => { p with imux := { p.imux with src := cpuLine }.reset }

def oscillatorCreate (intDev intLine : ℕ) : M ℕ :=
  deviceAttach ⟨.oscillator, 0⟩ fun _ =>
    setPriv fun p => { p with
      oscillator := (Hwtimer.oscillator (some intDev) intLine).oscillatorReset 0 }

/-- The numbers of the host's descriptors are those of the serial port and of `hostfile`. -/
def eon2Init (bootRom : ℕ → U8) (fin fout hostfile : ℕ) : M Unit := do
  let ram ← ramCreate 0x100000
  let mmu ← smallMmuCreate ram
  let rom ← romCreate bootRom 0x800
  deviceDefine rom 0 0xF800 0x0800 MAP_READABLE
  let io ← ioexpandCreate
  deviceDefine io 0 0xFF00 128 MAP_READWRITE
  let serial ← portCreate fin fout
  ioexpandAttach 0 0 serial
  let disk ← deviceAttach ⟨.disk, 4⟩ diskReset
  ioexpandAttach 1 0 disk
  ioexpandAttach 2 0 mmu
  let imux ← imuxCreate 1
  ioexpandAttach 3 0 imux
  let hostfile ← portCreate hostfile hostfile
  ioexpandAttach 9 0 hostfile
  let _ ← oscillatorCreate imux 0

def init (bootRom : ℕ → U8) (fin fout hostfile : ℕ) : M Unit :=
  machineInit (eon2Init bootRom fin fout hostfile)

def devices : List Device :=
  [⟨.null, 0⟩, ⟨.ram, 0x100000⟩, ⟨.smallMmu, 16⟩, ⟨.rom, 0x800⟩, ⟨.ioexpand, 128⟩, ⟨.serial, 4⟩,
    ⟨.disk, 4⟩, ⟨.imux, 128⟩, ⟨.serial, 4⟩, ⟨.oscillator, 0⟩]

/-! ## Accesses -/

def serialRead (dev addr : ℕ) : M U8 := do
  let s ← get
  let (val, port, host) := (s.priv.ports dev).read addr s.priv.host
  setPriv fun p => { setPort dev (fun _ => port) p with host := host }
  return val

def serialWrite (dev addr : ℕ) (val : U8) : M Unit :=
  setPriv fun p =>
    let (port, host) := (p.ports dev).write addr val p.host
    { setPort dev (fun _ => port) p with host := host }

/-- `disk_write`; the RAM behind the drive has the number 1. -/
def diskWrite (addr : ℕ) (val : U8) : M Unit :=
  modify fun s =>
    let (disk, ram) := s.priv.disk.diskWrite addr val (s.mem 1)
    { s with
      priv := { s.priv with disk := disk }
      mem := fun d a => if d = 1 then ram a else s.mem d a }

def imuxWrite (addr : ℕ) (val : U8) : M Unit :=
  setPriv fun p =>
    let (imux, lines) := p.imux.write addr val p.lines
    { p with imux := imux, lines := lines }

/-- A read of a device that is no expander, or behind one. -/
def classRead (dev offset : ℕ) : M U8 := do
  let s ← get
  match (s.devices.getD dev ⟨.null, 0⟩).cls with
  | .ram | .rom => ramRead dev offset
  | .smallMmu => onMmu (SmallMmu.smallMmuRead offset)
  | .serial => serialRead dev offset
  | .disk => return Disk.diskRead offset
  | .imux => return s.priv.imux.read offset
  -- an expander behind the only expander is itself
  | .ioexpand => throw (.fatal .recursion)
  -- the class has neither a read nor a write function
  | .oscillator => throw (.fatal .nullDevice)
  | _ => return 0xff

def classWrite (dev offset : ℕ) (val : U8) : M Unit := do
  let s ← get
  match (s.devices.getD dev ⟨.null, 0⟩).cls with
  | .ram | .rom => ramWrite dev offset val
  | .smallMmu => onMmu (SmallMmu.smallMmuWrite offset val)
  | .serial => serialWrite dev offset val
  | .disk => diskWrite offset val
  | .imux => imuxWrite offset val
  | .ioexpand => throw (.fatal .recursion)
  | .oscillator => throw (.fatal .nullDevice)
  | _ => pure ()

/-- The device and the offset behind the expander. -/
def throughExpander (dev offset : ℕ) : M (ℕ × ℕ) := do
  let s ← get
  if (s.devices.getD dev ⟨.null, 0⟩).cls = .ioexpand then s.priv.expander.target offset
  else return (dev, offset)

def hardware : Hardware Priv where
  read _ dev offset := do
    let (dev, offset) ← throughExpander dev offset
    classRead dev offset
  write _ dev offset val := do
    let (dev, offset) ← throughExpander dev offset
    classWrite dev offset val

end Exec09.Eon2
