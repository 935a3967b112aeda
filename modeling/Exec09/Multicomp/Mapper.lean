import Exec09.Bus.Setup
import Exec09.Devices.IoExpand
import Exec09.Multicomp.Console
import Exec09.Multicomp.Sd

/-! # The multicomp09 machine

The memory mapper of the SD card controller cuts the address space into eight
blocks of 8K. Every write to one of its registers builds the whole map again,
seven blocks and three parts of the eighth, and attaches the sixteen slots of
the I/O expander that answers in the last 128 bytes.
-/
namespace Exec09.Multicomp
open Foundation

def FRT_BLOCK : ℕ := 7

/-- The registers of the mapper. -/
structure Mapper where
  mmuadr : U8
  mmufrt : Bool
  /-- Bit 7 protects a block, the other bits are its physical number. -/
  pblk : ℕ → U8

namespace Mapper

def romdis (m : Mapper) : Bool := m.mmuadr &&& 0x80 != 0

def enabled (m : Mapper) : Bool := m.mmuadr &&& 0x20 != 0

/-- The register of a block in the map that bit 6 selects. -/
def index (blk : ℕ) (m : Mapper) : ℕ := blk ||| ((m.mmuadr.toNat &&& 0x40) >>> 3)

def mmuOffset (blk : ℕ) (m : Mapper) : ℕ :=
  if m.enabled then ((m.pblk (m.index blk)).toNat &&& 0x7f) <<< 13 else blk <<< 13

def mmuFlags (blk : ℕ) (m : Mapper) : ℕ :=
  if m.enabled then
    if (m.pblk (m.index blk)).toNat >>> 7 = 1 then MAP_READABLE else MAP_READWRITE
  else MAP_READWRITE

/-- The first part of `sdmapper_remap`. -/
def load (op : ℕ) (val : U8) (m : Mapper) : Mapper :=
  match op with
  | 1 => { m with pblk := Function.update m.pblk (m.mmuadr &&& 0xf).toNat val }
  | 2 =>
    let frt := m.mmuadr &&& 0xa0 == 0xa0 && val &&& 0xa0 == 0x20
    let val := if frt then val ||| 0x80 else val
    { m with
      mmufrt := if val &&& 0x20 == 0 then false else m.mmufrt || frt
      mmuadr := val }
  | _ => m

/-- The calls of `bus_map` in `sdmapper_remap`. -/
def calls (m : Mapper) : List MapCall :=
  [⟨0x0000, 1, m.mmuOffset 0, 0x2000, m.mmuFlags 0⟩, ⟨0x2000, 1, m.mmuOffset 1, 0x2000, m.mmuFlags 1⟩,
    ⟨0x4000, 1, m.mmuOffset 2, 0x2000, m.mmuFlags 2⟩, ⟨0x6000, 1, m.mmuOffset 3, 0x2000, m.mmuFlags 3⟩,
    ⟨0x8000, 1, m.mmuOffset 4, 0x2000, m.mmuFlags 4⟩, ⟨0xA000, 1, m.mmuOffset 5, 0x2000, m.mmuFlags 5⟩,
    ⟨0xC000, 1, m.mmuOffset 6, 0x2000, m.mmuFlags 6⟩,
    if m.romdis then ⟨0xE000, 1, m.mmuOffset 7, 0x1E00, m.mmuFlags 7⟩
    else ⟨0xE000, 2, 0x0000, 0x1E00, MAP_READABLE⟩,
    if m.romdis then
      if m.mmufrt then ⟨0xFE00, 1, 0x1E00 + FRT_BLOCK <<< 13, 0x180, m.mmuFlags 7⟩
      else ⟨0xFE00, 1, 0x1E00 + m.mmuOffset 7, 0x180, MAP_READWRITE⟩
    else ⟨0xFE00, 2, 0x1E00, 0x180, MAP_READABLE⟩,
    ⟨0xFF80, 5, 0x0000, 128, MAP_READWRITE⟩]

/-- The device and the offset that `sdmapper_remap` attaches to a slot. The RAM, the ROM, the
console and the controller itself have the numbers 1 to 4. -/
def slot (m : Mapper) (i : ℕ) : ℕ × ℕ :=
  if i = 10 then (3, 0)
  else if i = 11 then (4, 0)
  else if m.romdis then
    if m.mmufrt then (1, FRT_BLOCK <<< 13 + 0x1F80 + i * 8)
    else (1, m.mmuOffset 7 + 0x1F80 + i * 8)
  else (2, 0x1F80 + i * 8)

end Mapper

/-- The globals of `miscsbc.c` that the machine uses. -/
structure Priv where
  mapper : Mapper
  expander : IoExpand
  console : Console
  sd : Sd

abbrev M := BoardM Priv

def Priv.start : Priv where
  mapper := ⟨0, false, fun _ => 0⟩
  expander := IoExpand.empty
  console := Console.initial
  sd := Sd.init none

def setMapper (f : Mapper → Mapper) (s : Board Priv) : Board Priv :=
  { s with priv := { s.priv with mapper := f s.priv.mapper } }

def setExpander (f : IoExpand → IoExpand) (s : Board Priv) : Board Priv :=
  { s with priv := { s.priv with expander := f s.priv.expander } }

def setConsole (f : Console → Console) (s : Board Priv) : Board Priv :=
  { s with priv := { s.priv with console := f s.priv.console } }

def setSd (sd : Sd) (s : Board Priv) : Board Priv := { s with priv := { s.priv with sd := sd } }

def sdmapperRemap (op : ℕ) (val : U8) : M Unit := do
  modify (setMapper (Mapper.load op val))
  let s ← get
  runAll mapBus s.priv.mapper.calls
  modify (setExpander (IoExpand.attachAll s.priv.mapper.slot 16))

/-! ## Accesses -/

/-- For a register that cannot be read the message depends on the byte before the last two of the
program, which is read over the bus. -/
def sdmapperRead (read8 : ℕ → M U8) (pc addr : ℕ) : M U8 := do
  let s ← get
  match addr with
  | 0 | 1 => do
    let (v, sd) := s.priv.sd.read addr
    modify (setSd sd)
    return v
  | 5 => return s.priv.console.timer
  | _ => do
    let _ ← read8 (usub pc 3)
    return 0x42

def sdmapperWrite (addr : ℕ) (val : U8) : M Unit := do
  let s ← get
  match addr with
  | 5 => modify (setConsole (Console.writeTimer val))
  | 6 => if val &&& 0x10 = 0 then sdmapperRemap 2 val
  | 7 => sdmapperRemap 1 val
  | _ =>
    match s.priv.sd.write addr val with
    | .ok sd => modify (setSd sd)
    | .error e => throw e

/-- A read of a device that is no expander, or behind one. -/
def classRead (read8 : ℕ → M U8) (pc dev offset : ℕ) : M U8 := do
  let s ← get
  match (s.devices.getD dev ⟨.null, 0⟩).cls with
  | .ram | .rom => ramRead dev offset
  | .console => do
    let (v, c) := s.priv.console.read offset
    modify (setConsole fun _ => c)
    return v
  | .sdmapper => sdmapperRead read8 pc offset
  -- an expander behind the only expander is itself
  | .ioexpand => throw (.fatal .recursion)
  | _ => return 0xff

def classWrite (dev offset : ℕ) (val : U8) : M Unit := do
  let s ← get
  match (s.devices.getD dev ⟨.null, 0⟩).cls with
  | .ram | .rom => ramWrite dev offset val
  | .console => modify (setConsole (Console.write offset val))
  | .sdmapper => sdmapperWrite offset val
  | .ioexpand => throw (.fatal .recursion)
  | _ => pure ()

/-- The device and the offset behind the expander. -/
def throughExpander (dev offset : ℕ) : M (ℕ × ℕ) := do
  let s ← get
  if (s.devices.getD dev ⟨.null, 0⟩).cls = .ioexpand then s.priv.expander.target offset
  else return (dev, offset)

def deviceRead (read8 : ℕ → M U8) (pc dev offset : ℕ) : M U8 := do
  let (dev, offset) ← throughExpander dev offset
  classRead read8 pc dev offset

def deviceWrite (dev offset : ℕ) (val : U8) : M Unit := do
  let (dev, offset) ← throughExpander dev offset
  classWrite dev offset val

/-- The hardware during a read that a read of the controller makes. It has the same address each
time, so if it reaches the same register it never ends. -/
def nestedHardware : Hardware Priv where
  read := deviceRead fun _ => throw (.fatal .recursion)
  write _ := deviceWrite

def hardware : Hardware Priv where
  read pc := deviceRead (Access.cpuRead8 nestedHardware pc) pc
  write _ := deviceWrite

/-! ## Initialisation -/

/-- The end of `multicomp09_init`. -/
def openFiles (batchFile : Option (List U8)) (sdFile : Option File) (p : Priv) : Priv :=
  { p with
    console := { p.console with
      fifo := { p.console.fifo with wr := 0, rd := 0, empty := true }
      wrStatus := 0
      batchFile := batchFile }.releaseIrq 1
    sd := { p.sd with
      sdFile := sdFile
      poll := 0
      state := if sdFile.isSome then .initialising else .noCard } }

def multicomp09Init (bootRom : ℕ → U8) (batchFile : Option (List U8)) (sdFile : Option File) :
    M Unit := do
  let _ ← ramCreate 0x80000
  let _ ← romCreate bootRom 0x2000
  let _ ← deviceAttach ⟨.console, 128⟩ nullReset
  let _ ← deviceAttach ⟨.sdmapper, 128⟩ nullReset
  -- no slot is attached yet, so the reset of the expander has nothing to pass on
  let _ ← deviceAttach ⟨.ioexpand, 128⟩ nullReset
  sdmapperRemap 0 0
  modify fun s => { s with priv := openFiles batchFile sdFile s.priv }

def init (bootRom : ℕ → U8) (batchFile : Option (List U8)) (sdFile : Option File) : M Unit :=
  machineInit (multicomp09Init bootRom batchFile sdFile)

def devices : List Device :=
  [⟨.null, 0⟩, ⟨.ram, 0x80000⟩, ⟨.rom, 0x2000⟩, ⟨.console, 128⟩, ⟨.sdmapper, 128⟩, ⟨.ioexpand, 128⟩]

end Exec09.Multicomp
