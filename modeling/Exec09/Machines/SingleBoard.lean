import Exec09.Bus.Setup

/-! # The machines whose map is never changed

`simple` has 64K of RAM and a console, `smii` and `kipper1` have RAM, a ROM and
a console that looks like a UART. What they map is mapped once, before the CPU
runs. The console reads a batch file, if there is one, and then the keyboard.
-/
namespace Exec09.Machines
open Foundation

inductive SingleBoard
  | simple | smii | kipper1
  deriving DecidableEq, Repr

/-- What a console prints: characters of the program, and messages about accesses. -/
inductive Printed
  | char (c : U8)
  | busyWrite
  | strayRead (addr : ℕ)
  | strayWrite (addr : ℕ) (val : U8)
  deriving DecidableEq, Repr

/-- What the consoles share with the host, and `smii_o_busy`. -/
structure Terminal where
  /-- What is left of the batch file; a file that is missing is as good as an empty one. -/
  batchFile : List U8
  /-- The characters on standard input. -/
  input : List U8
  /-- What was printed, latest first. -/
  output : List Printed
  oBusy : ℕ

abbrev TerminalM := EStateM Stop Terminal

def MISSING : U8 := 0xff

namespace Terminal

/-- The end of the input is read as `EOF`, which a byte keeps as 0xff. -/
def getchar : TerminalM U8 := do
  match (← get).input with
  | [] => return 0xff
  | c :: rest =>
    modify fun t => { t with input := rest }
    return c

def print (p : Printed) : TerminalM Unit := modify fun t => { t with output := p :: t.output }

/-- The next character of the batch file, or of the keyboard. -/
def nextChar : TerminalM U8 := do
  match (← get).batchFile with
  | c :: rest =>
    modify fun t => { t with batchFile := rest }
    return c
  | [] => getchar

/-- The key conversions that make the keyboard look like DOS. -/
def convert (ch : U8) : U8 := if ch = 127 then 8 else if ch = 10 then 13 else ch

def consoleRead (addr : ℕ) : TerminalM U8 :=
  match addr with
  | 2 => getchar
  | _ => return MISSING

def consoleWrite (addr : ℕ) (val : U8) : TerminalM Unit :=
  match addr with
  | 0 => print (.char val)
  | 1 => throw (.exit val.toNat)
  | _ => pure ()

/-- The variable `smii_i_avail` is always 1. -/
def smiiConsoleRead (addr : ℕ) : TerminalM U8 :=
  match addr with
  | 2 => do
    modify fun t => { t with oBusy := if t.oBusy = 0 then 0 else (t.oBusy + 1) % 4 }
    return 1 ||| if (← get).oBusy = 0 then 4 else 0
  | 3 => return convert (← nextChar)
  | _ => do
    print (.strayRead addr)
    return 0x42

def smiiConsoleWrite (addr : ℕ) (val : U8) : TerminalM Unit :=
  match addr with
  | 0 | 2 => pure ()
  | 3 => do
    if (← get).oBusy ≠ 0 then print .busyWrite
    modify fun t => { t with oBusy := 1 }
    print (.char val)
  | _ => print (.strayWrite addr val)

def kipper1ConsoleRead (addr : ℕ) : TerminalM U8 :=
  match addr with
  | 0 => return 0x03
  | 1 => return convert (← nextChar)
  | _ => do
    print (.strayRead addr)
    return 0x42

def kipper1ConsoleWrite (addr : ℕ) (val : U8) : TerminalM Unit :=
  match addr with
  | 1 => print (.char val)
  | _ => print (.strayWrite addr val)

end Terminal

abbrev M := BoardM Terminal

def simpleInit : M Unit := do
  let ram ← ramCreate 0x10000
  deviceDefine ram 0 0x0000 0x10000 MAP_READWRITE
  let console ← deviceAttach ⟨.console, 128⟩ nullReset
  deviceDefine console 0 0xFF00 128 MAP_READWRITE

def smiiInit (bootRom : ℕ → U8) : M Unit := do
  let ram ← ramCreate 0x7C00
  deviceDefine ram 0 0x0000 0x7C00 MAP_READWRITE
  let rom ← romCreate bootRom 0x2000
  deviceDefine rom 0 0xE000 0x2000 MAP_READABLE
  let quiet ← nullCreate
  deviceDefine quiet 0 0x8000 128 MAP_IGNOREWRITE
  deviceDefine quiet 0 0x9000 128 MAP_IGNOREWRITE
  deviceDefine quiet 0 0xA000 128 MAP_IGNOREWRITE
  deviceDefine quiet 0 0xB000 128 MAP_IGNOREWRITE
  deviceDefine quiet 0 0xC000 128 MAP_IGNOREWRITE
  deviceDefine quiet 0 0xD000 128 MAP_IGNOREWRITE
  deviceDefine rom 0x0000 0xE000 128 (MAP_IGNOREWRITE ||| MAP_READABLE)
  deviceDefine rom 0x1000 0xF000 128 (MAP_IGNOREWRITE ||| MAP_READABLE)
  let console ← deviceAttach ⟨.console, 128⟩ nullReset
  deviceDefine console 0 0x7C00 128 MAP_READWRITE

def kipper1Init (bootRom : ℕ → U8) : M Unit := do
  let ram ← ramCreate 0x8000
  deviceDefine ram 0 0x0000 0x8000 MAP_READWRITE
  let rom ← romCreate bootRom 0x4000
  deviceDefine rom 0 0xC000 0x4000 MAP_READABLE
  let console ← deviceAttach ⟨.console, 128⟩ nullReset
  deviceDefine console 0 0xA000 128 MAP_READWRITE

namespace SingleBoard

/-- `machine_init` for the machine. Only the last two have a ROM. -/
def init (bootRom : ℕ → U8) : SingleBoard → M Unit
  | simple => machineInit simpleInit
  | smii => machineInit (smiiInit bootRom)
  | kipper1 => machineInit (kipper1Init bootRom)

/-- The functions of `console_class`, which `smii_init` and `kipper1_init` replace. -/
def consoleRead : SingleBoard → ℕ → TerminalM U8
  | simple => Terminal.consoleRead
  | smii => Terminal.smiiConsoleRead
  | kipper1 => Terminal.kipper1ConsoleRead

def consoleWrite : SingleBoard → ℕ → U8 → TerminalM Unit
  | simple => Terminal.consoleWrite
  | smii => Terminal.smiiConsoleWrite
  | kipper1 => Terminal.kipper1ConsoleWrite

end SingleBoard

/-- Run a function of the console on the board. -/
def onTerminal {α : Type} (m : TerminalM α) : M α := fun s =>
  match m s.priv with
  | .ok a t => .ok a { s with priv := t }
  | .error e t => .error e { s with priv := t }

def SingleBoard.hardware (m : SingleBoard) : Hardware Terminal where
  read _ dev offset := do
    let s ← get
    match (s.devices.getD dev ⟨.null, 0⟩).cls with
    | .ram | .rom => ramRead dev offset
    | .console => onTerminal (m.consoleRead offset)
    | _ => return 0xff
  write _ dev offset val := do
    let s ← get
    match (s.devices.getD dev ⟨.null, 0⟩).cls with
    | .ram | .rom => ramWrite dev offset val
    | .console => onTerminal (m.consoleWrite offset val)
    | _ => pure ()

/-! ## The setup -/

/-- What the setup has come to: the devices, the map, the contents of the devices. -/
structure Stage (debug : Bool) (devs : List Device) (maps : BusMaps) (mem : ℕ → ℕ → U8)
    (t : Terminal) (s : Board Terminal) : Prop where
  devices : s.devices = devs
  busmaps : s.busmaps = maps
  mem : s.mem = mem
  priv : s.priv = t
  machineFault : s.machineFault = .fault
  cpuRunning : s.cpuRunning = false
  debugEnabled : s.debugEnabled = debug

section Stages
variable {debug : Bool} {devs : List Device} {maps : BusMaps} {mem : ℕ → ℕ → U8} {t : Terminal}
  {E : Board Terminal → Prop}

theorem deviceAttach_stage {d : Device} {reset : ℕ → M Unit} {R : Board Terminal → Prop}
    (h : devs.length < 32)
    (hr : Triple (Stage debug (devs ++ [d]) maps mem t) (reset devs.length) (fun _ => R) E) :
    Triple (Stage debug devs maps mem t) (deviceAttach d reset)
      (fun n s => n = devs.length ∧ R s) E := by
  rintro s ⟨rfl, hmaps, hmem, hpriv, hfault, hrunning, hdebug⟩
  rw [deviceAttach, run_bind_ok run_get, dif_pos h]
  have hset : (set ({ s with devices := s.devices ++ [d], attached := by simp; omega } :
      Board Terminal) : M Unit) s =
      .ok () { s with devices := s.devices ++ [d], attached := by simp; omega } := rfl
  rw [run_bind_ok hset]
  have hreset := hr { s with devices := s.devices ++ [d], attached := by simp; omega }
    ⟨rfl, hmaps, hmem, hpriv, hfault, hrunning, hdebug⟩
  cases hrun : reset s.devices.length
    { s with devices := s.devices ++ [d], attached := by simp; omega } with
  | ok a u =>
    rw [hrun] at hreset
    rw [run_bind_ok hrun]
    exact ⟨rfl, hreset⟩
  | error e u =>
    rw [hrun] at hreset
    rw [run_bind_error hrun]
    exact hreset

theorem plainAttach_stage (d : Device) (h : devs.length < 32) :
    Triple (Stage debug devs maps mem t) (deviceAttach d nullReset)
      (fun n s => n = devs.length ∧ Stage debug (devs ++ [d]) maps mem t s) E :=
  deviceAttach_stage h (Triple.pure _ fun _ hs => hs)

theorem ramCreate_stage (size : ℕ) (h : devs.length < 32) :
    Triple (Stage debug devs maps mem t) (ramCreate size)
      (fun n s => n = devs.length ∧ Stage debug (devs ++ [⟨.ram, size⟩]) maps
        (fun d a => if d = devs.length then 0 else mem d a) t s) E :=
  deviceAttach_stage h (Triple.modify fun s hs => { hs with mem := by rw [hs.mem] })

theorem romCreate_stage (contents : ℕ → U8) (size : ℕ) (h : devs.length < 32) :
    Triple (Stage debug devs maps mem t) (romCreate contents size)
      (fun n s => n = devs.length ∧ Stage debug (devs ++ [⟨.rom, size⟩]) maps
        (fun d a => if d = devs.length then contents a else mem d a) t s) E := by
  apply Triple.value (plainAttach_stage _ h)
  exact (Triple.modify fun s hs => { hs with mem := by rw [hs.mem] }).bind fun _ =>
    Triple.pure _ fun s hs => ⟨rfl, hs⟩

theorem deviceDefine_stage {devid offset addr len flags : ℕ}
    (hc : (⟨addr, devid, offset, len, flags⟩ : MapCall).Aligned) :
    Triple (Stage debug devs maps mem t) (deviceDefine devid offset addr len flags)
      (fun _ => Stage debug devs
        ((⟨addr, devid, offset, len, flags⟩ : MapCall).layer.stamp BusEntry.fixed maps) mem t) E := by
  rw [deviceDefine]
  intro s hs
  rw [mapBus_run hc]
  exact { hs with busmaps := by rw [← hs.busmaps]; rfl }

theorem machineInit_stage {init : M Unit}
    (h : Triple (Stage debug [⟨.null, 0⟩] initialBusmaps (fun _ _ => 0) t) init
      (fun _ => Stage debug devs maps mem t) E) :
    Triple (Stage debug [] initialBusmaps (fun _ _ => 0) t) (machineInit init)
      (fun _ => Stage debug devs maps mem t) E := by
  apply Triple.value (plainAttach_stage _ (by decide))
  apply Triple.bind (Q := fun _ => Stage debug [⟨.null, 0⟩] initialBusmaps (fun _ _ => 0) t)
  · exact Triple.modify fun s hs => { hs with busmaps := rfl }
  intro _
  apply h.bind
  intro _
  exact Triple.modify fun s hs => { hs with }

end Stages

namespace SingleBoard

def devices : SingleBoard → List Device
  | simple => [⟨.null, 0⟩, ⟨.ram, 0x10000⟩, ⟨.console, 128⟩]
  | smii => [⟨.null, 0⟩, ⟨.ram, 0x7C00⟩, ⟨.rom, 0x2000⟩, ⟨.null, 0⟩, ⟨.console, 128⟩]
  | kipper1 => [⟨.null, 0⟩, ⟨.ram, 0x8000⟩, ⟨.rom, 0x4000⟩, ⟨.console, 128⟩]

/-- The mappings of the `init` function, in order. -/
def setupCalls : SingleBoard → List MapCall
  | simple => [⟨0x0000, 1, 0, 0x10000, MAP_READWRITE⟩, ⟨0xFF00, 2, 0, 128, MAP_READWRITE⟩]
  | smii =>
    [⟨0x0000, 1, 0, 0x7C00, MAP_READWRITE⟩, ⟨0xE000, 2, 0, 0x2000, MAP_READABLE⟩,
      ⟨0x8000, 3, 0, 128, MAP_IGNOREWRITE⟩, ⟨0x9000, 3, 0, 128, MAP_IGNOREWRITE⟩,
      ⟨0xA000, 3, 0, 128, MAP_IGNOREWRITE⟩, ⟨0xB000, 3, 0, 128, MAP_IGNOREWRITE⟩,
      ⟨0xC000, 3, 0, 128, MAP_IGNOREWRITE⟩, ⟨0xD000, 3, 0, 128, MAP_IGNOREWRITE⟩,
      ⟨0xE000, 2, 0x0000, 128, MAP_IGNOREWRITE ||| MAP_READABLE⟩,
      ⟨0xF000, 2, 0x1000, 128, MAP_IGNOREWRITE ||| MAP_READABLE⟩,
      ⟨0x7C00, 4, 0, 128, MAP_READWRITE⟩]
  | kipper1 =>
    [⟨0x0000, 1, 0, 0x8000, MAP_READWRITE⟩, ⟨0xC000, 2, 0, 0x4000, MAP_READABLE⟩,
      ⟨0xA000, 3, 0, 128, MAP_READWRITE⟩]

/-- The map of the machine. -/
def busmaps (m : SingleBoard) : BusMaps :=
  Layer.lay BusEntry.fixed (m.setupCalls.map MapCall.layer) initialBusmaps

/-- The contents of the devices before a program is loaded. -/
def contents (bootRom : ℕ → U8) (m : SingleBoard) (dev offset : ℕ) : U8 :=
  if dev = 2 ∧ m ≠ simple then bootRom offset else 0

theorem init_stage (bootRom : ℕ → U8) (debug : Bool) (t : Terminal) (m : SingleBoard) :
    Triple (Stage debug [] initialBusmaps (fun _ _ => 0) t) (m.init bootRom)
      (fun _ => Stage debug m.devices m.busmaps (m.contents bootRom) t) (fun _ => False) := by
  cases m with
  | simple =>
    apply machineInit_stage
    apply Triple.value (ramCreate_stage _ (by decide))
    apply (deviceDefine_stage (by decide)).bind fun _ => ?_
    apply Triple.value (plainAttach_stage _ (by decide))
    apply (deviceDefine_stage (by decide)).mono (fun _ h => h) ?_ (fun _ h => h)
    intro _ s hs
    exact { hs with mem := hs.mem.trans (by funext d a; simp [contents]) }
  | smii =>
    apply machineInit_stage
    apply Triple.value (ramCreate_stage _ (by decide))
    apply (deviceDefine_stage (by decide)).bind fun _ => ?_
    apply Triple.value (romCreate_stage _ _ (by decide))
    apply (deviceDefine_stage (by decide)).bind fun _ => ?_
    apply Triple.value (plainAttach_stage _ (by decide))
    iterate 8 apply (deviceDefine_stage (by decide)).bind fun _ => ?_
    apply Triple.value (plainAttach_stage _ (by decide))
    apply (deviceDefine_stage (by decide)).mono (fun _ h => h) ?_ (fun _ h => h)
    intro _ s hs
    exact { hs with mem := hs.mem.trans (by funext d a; simp [contents]) }
  | kipper1 =>
    apply machineInit_stage
    apply Triple.value (ramCreate_stage _ (by decide))
    apply (deviceDefine_stage (by decide)).bind fun _ => ?_
    apply Triple.value (romCreate_stage _ _ (by decide))
    apply (deviceDefine_stage (by decide)).bind fun _ => ?_
    apply Triple.value (plainAttach_stage _ (by decide))
    apply (deviceDefine_stage (by decide)).mono (fun _ h => h) ?_ (fun _ h => h)
    intro _ s hs
    exact { hs with mem := hs.mem.trans (by funext d a; simp [contents]) }

end SingleBoard

end Exec09.Machines
