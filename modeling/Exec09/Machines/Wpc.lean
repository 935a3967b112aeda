import Exec09.Bus.Setup

/-! # The wpc machine

The ASIC of the pinball controller has its registers in the last 1K of the
lower quarter of the address space. Three of them page the ROM and the two
halves of the window to the display memory, and two lock a part of the RAM.
-/
namespace Exec09.Wpc
open Foundation

def WPC_RAM_SIZE : ℕ := 0x2000
def WPC_ROM_SIZE : ℕ := 0x100000
def WPC_ASIC_BASE : ℕ := 0x3C00

/-- `struct wpc_asic`. -/
structure Asic where
  /-- The numbers of `ram_dev` and `dmd_dev`. -/
  ramDev : ℕ
  dmdDev : ℕ
  led : U8
  rombank : U8
  ramUnlocked : U8
  ramLockSize : U8
  shiftaddr : U16
  shiftbit : U16
  lampStrobe : U8
  /-- Of 8 places. -/
  lampMx : ℕ → U8
  switchStrobe : U8
  /-- Of 10 places. -/
  switchMx : ℕ → U8
  dmdMaps : ℕ → U8
  dmdPhase : ℕ
  /-- Of 3 places each. -/
  dmdVisibles : ℕ → U8
  dmdLastVisibles : ℕ → U8
  wdogTimer : ℤ

/-- What is sent to the display. -/
inductive Message
  | dmdPage (phases : List (U8 × List U8))
  | dmdVisible (phases : List U8)

structure Priv where
  asic : Asic
  consoleInited : Bool
  /-- The characters on standard input, and those written, latest first. -/
  input : List U8
  output : List U8
  /-- What `get_cycles` returns. -/
  cycles : ℕ
  lastFirqTime : ℕ
  noChangeCount : ℕ
  /-- The messages sent, latest first. -/
  sent : List Message

abbrev M := BoardM Priv

def setPriv (f : Priv → Priv) : M Unit := modify fun s => { s with priv := f s.priv }

def setAsic (f : Asic → Asic) : M Unit := setPriv fun p => { p with asic := f p.asic }

/-! ## The ASIC -/

/-- The number of the highest bit, or -1. -/
def scanbit (val : U8) : ℤ :=
  if val &&& 0x80 ≠ 0 then 7
  else if val &&& 0x40 ≠ 0 then 6
  else if val &&& 0x20 ≠ 0 then 5
  else if val &&& 0x10 ≠ 0 then 4
  else if val &&& 0x08 ≠ 0 then 3
  else if val &&& 0x04 ≠ 0 then 2
  else if val &&& 0x02 ≠ 0 then 1
  else if val &&& 0x01 ≠ 0 then 0
  else -1

def wpcReadSwitch (num : ℕ) (a : Asic) : ℕ :=
  if (a.switchMx (num / 8)).toNat &&& (1 <<< (num % 8)) ≠ 0 then 1 else 0

def wpcWriteSwitch (num : ℕ) (flag : Bool) (a : Asic) : Asic :=
  let bit : U8 := BitVec.ofNat 8 (1 <<< (num % 8))
  let cleared := a.switchMx (num / 8) &&& ~~~bit
  { a with switchMx := Function.update a.switchMx (num / 8) (if flag then cleared ||| bit else cleared) }

def wpcReadSwitchColumn (col : ℤ) : M U8 := do
  let s ← get
  if 0 ≤ col ∧ col < 10 then
    return BitVec.ofNat 8 ((List.range 8).foldl (fun val row =>
      if wpcReadSwitch (col.toNat * 8 + row) s.priv.asic ≠ 0 then val ||| (1 <<< row) else val) 0)
  else throw (.fatal .arrayIndex)

def wpcGetConsoleState (p : Priv) : U8 := if p.consoleInited then 0x1 else 0x3

def wpcConsoleRead : M U8 := do
  let s ← get
  if s.priv.consoleInited then
    match s.priv.input with
    | c :: rest => do
      setPriv fun p => { p with input := rest }
      return c
    | [] => return 0
  else do
    setPriv fun p => { p with consoleInited := true }
    return 0

def wpcConsoleWrite (val : U8) : M Unit := setPriv fun p => { p with output := val :: p.output }

/-- The new values of `dmd_visibles` and `dmd_phase`, some time after the last change. -/
def showPhase (elapsed : ℕ) (val : U8) (a : Asic) : Option Asic :=
  if elapsed ≥ 1850 * 8 * 5 then
    some { a with dmdVisibles := fun i => if i < 3 then val else a.dmdVisibles i, dmdPhase := 0 }
  else if a.dmdPhase < 3 then
    some { a with
      dmdVisibles := Function.update a.dmdVisibles a.dmdPhase val
      dmdPhase := if a.dmdPhase + 1 = 3 then 0 else a.dmdPhase + 1 }
  else none

/-- Sends the visible pages, which are read from the buffer of the display memory. -/
def sendVisibles : M Unit := do
  let s ← get
  let pages := (List.range 3).map s.priv.asic.dmdVisibles
  if pages.all fun page => page.toNat < 16 then
    setPriv fun p => { p with
      sent := .dmdVisible pages :: .dmdPage (pages.map fun page =>
        (page, (List.range 512).map fun i => s.mem s.priv.asic.dmdDev (page.toNat * 512 + i))) ::
          p.sent }
  else throw (.fatal .arrayIndex)

def wpcDmdSetVisible (val : U8) : M Unit := do
  let s ← get
  let elapsed := Word.sub 64 s.priv.cycles s.priv.lastFirqTime
  if elapsed ≤ 1850 * 8 then pure ()
  else
    match showPhase elapsed val s.priv.asic with
    | none => throw (.fatal .arrayIndex)
    | some a => do
      setPriv fun p => { p with asic := a, lastFirqTime := p.cycles }
      let same := (List.range 3).all fun i => a.dmdVisibles i == a.dmdLastVisibles i
      if same then setPriv fun p => { p with noChangeCount := p.noChangeCount + 1 }
      let s ← get
      if same && s.priv.noChangeCount < 100 then pure ()
      else do
        setPriv fun p => { p with
          noChangeCount := 0
          asic := { p.asic with dmdLastVisibles := fun i =>
            if i < 3 then p.asic.dmdVisibles i else p.asic.dmdLastVisibles i } }
        sendVisibles

/-- The cases of `wpc_asic_read`, by the address of the register. -/
def readRegister (reg : ℕ) : M U8 := do
  let s ← get
  let a := s.priv.asic
  match reg with
  | 0x3FF2 => return a.led
  | 0x3FFC => return a.rombank
  | 0x3D61 => return wpcGetConsoleState s.priv
  | 0x3D60 => wpcConsoleRead
  | 0x3FF4 => return BitVec.ofNat 8 (a.shiftaddr.toNat >>> 8)
  | 0x3FF5 => return BitVec.ofNat 8 ((a.shiftaddr.toNat &&& 0xFF) + a.shiftbit.toNat / 8)
  | 0x3FF6 => return BitVec.ofNat 8 (1 <<< (a.shiftbit.toNat % 8))
  | 0x3FE9 =>
    if 0x16 ≤ a.switchStrobe ∧ a.switchStrobe ≤ 0x1F then
      wpcReadSwitchColumn (a.switchStrobe.toNat - 0x16 + 1)
    else wpcReadSwitchColumn (1 + scanbit a.switchStrobe)
  | 0x3FE7 => return 0x55
  | 0x3FE8 => wpcReadSwitchColumn 0
  | 0x3FD4 | 0x3FD5 | 0x3FEF => wpcReadSwitchColumn 9
  | _ => return 0

def wpcAsicRead (addr : ℕ) : M U8 := readRegister (addr + WPC_ASIC_BASE)

/-- How much of the RAM can be written. -/
def sizeWritable (ramUnlocked ramLockSize : U8) : ℕ :=
  if ramUnlocked = 0 then
    match ramLockSize.toNat with
    | 0xF => WPC_RAM_SIZE - 256
    -- this case falls through to the next one
    | 0x7 => WPC_RAM_SIZE - 512 - 1024
    | 0x3 => WPC_RAM_SIZE - 1024
    | 0x1 => WPC_RAM_SIZE - 2048
    | 0 => WPC_RAM_SIZE - 4096
    | _ => WPC_RAM_SIZE
  else WPC_RAM_SIZE

def wpcUpdateRam : M Unit := do
  let s ← get
  let a := s.priv.asic
  let writable := sizeWritable a.ramUnlocked a.ramLockSize
  mapBus ⟨0, a.ramDev, 0, writable, MAP_READWRITE⟩
  if writable < WPC_RAM_SIZE then
    mapBus ⟨writable, a.ramDev, writable, WPC_RAM_SIZE - writable, MAP_READABLE⟩

/-- The device number is written in the source. -/
def wpcSetRomPage (val : U8) : M Unit :=
  mapBus ⟨0x4000, 2, val.toNat * 0x4000, 0x4000, MAP_READABLE⟩

def wpcSetDmdPage (map : ℕ) (val : U8) : M Unit := do
  setAsic fun a => { a with dmdMaps := Function.update a.dmdMaps map val }
  mapBus ⟨0x3800 + map * 0x200, 3, val.toNat * 0x200, 0x200, MAP_READWRITE⟩

/-- `WPC_LAMP_ROW_OUTPUT`. -/
def lampRow (val : U8) : M Unit := do
  let s ← get
  let col := scanbit s.priv.asic.lampStrobe
  if 0 ≤ col ∧ col < 8 then
    setAsic fun a => { a with lampMx := Function.update a.lampMx col.toNat val }
  else throw (.fatal .arrayIndex)

/-- The cases of `wpc_asic_write`; the solenoid outputs only print a message. -/
def writeRegister (reg : ℕ) (val : U8) : M Unit :=
  match reg with
  | 0x3FBE => wpcSetDmdPage 0 val
  | 0x3FBC => wpcSetDmdPage 1 val
  | 0x3FBF => wpcDmdSetVisible val
  | 0x3FF2 => setAsic fun a => { a with led := val }
  | 0x3FFF => setAsic fun a => { a with wdogTimer := toInt (a.wdogTimer + 1) }
  | 0x3FFC => do
    setAsic fun a => { a with rombank := val }
    wpcSetRomPage val
  | 0x3D60 => wpcConsoleWrite val
  | 0x3FFD => do
    setAsic fun a => { a with ramUnlocked := val }
    wpcUpdateRam
  | 0x3FFE => do
    setAsic fun a => { a with ramLockSize := val }
    wpcUpdateRam
  | 0x3FF4 => setAsic fun a => { a with shiftaddr := a.shiftaddr &&& 0x00FF ||| val.setWidth 16 <<< 8 }
  | 0x3FF5 => setAsic fun a => { a with shiftaddr := a.shiftaddr &&& 0xFF00 ||| val.setWidth 16 }
  | 0x3FF6 => setAsic fun a => { a with shiftbit := val.setWidth 16 }
  | 0x3FE4 => lampRow val
  | 0x3FE5 => setAsic fun a => { a with lampStrobe := val }
  | 0x3FEA => setAsic fun a => { a with switchStrobe := val }
  | _ => pure ()

def wpcAsicWrite (addr : ℕ) (val : U8) : M Unit := writeRegister (addr + WPC_ASIC_BASE) val

/-! ## The machine -/

/-- After the `memset` of `wpc_asic_reset`. -/
def Asic.zero : Asic where
  ramDev := 0
  dmdDev := 0
  led := 0
  rombank := 0
  ramUnlocked := 0
  ramLockSize := 0
  shiftaddr := 0
  shiftbit := 0
  lampStrobe := 0
  lampMx _ := 0
  switchStrobe := 0
  switchMx _ := 0
  dmdMaps _ := 0
  dmdPhase := 0
  dmdVisibles _ := 0
  dmdLastVisibles _ := 0
  wdogTimer := 0

def wpcAsicReset (_ : ℕ) : M Unit := setAsic fun _ => wpcWriteSwitch 19 true Asic.zero

def wpcInit (bootRom : ℕ → U8) : M Unit := do
  let asic ← deviceAttach ⟨.wpcAsic, 0x800⟩ wpcAsicReset
  deviceDefine asic 0 WPC_ASIC_BASE (0x4000 - WPC_ASIC_BASE) MAP_READWRITE
  let ram ← ramCreate WPC_RAM_SIZE
  deviceDefine ram 0 0x0000 WPC_RAM_SIZE MAP_READWRITE
  setAsic fun a => { a with ramDev := ram }
  let rom ← romCreate bootRom WPC_ROM_SIZE
  deviceDefine rom 0 0x4000 0x4000 MAP_READABLE
  deviceDefine rom (WPC_ROM_SIZE - 0x8000) 0x8000 0x8000 MAP_READABLE
  let dmd ← ramCreate (16 * 512)
  deviceDefine dmd 0 0x3800 (0x200 * 2) MAP_READWRITE
  setAsic fun a => { a with dmdDev := dmd }
  wpcUpdateRam

def init (bootRom : ℕ → U8) : M Unit := machineInit (wpcInit bootRom)

def devices : List Device :=
  [⟨.null, 0⟩, ⟨.wpcAsic, 0x800⟩, ⟨.ram, 0x2000⟩, ⟨.rom, 0x100000⟩, ⟨.ram, 8192⟩]

def hardware : Hardware Priv where
  read _ dev offset := do
    let s ← get
    match (s.devices.getD dev ⟨.null, 0⟩).cls with
    | .ram | .rom => ramRead dev offset
    | .wpcAsic => wpcAsicRead offset
    | _ => return 0xff
  write _ dev offset val := do
    let s ← get
    match (s.devices.getD dev ⟨.null, 0⟩).cls with
    | .ram | .rom => ramWrite dev offset val
    | .wpcAsic => wpcAsicWrite offset val
    | _ => pure ()

end Exec09.Wpc
