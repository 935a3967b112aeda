import Exec09.Cpu.State
import Exec09.Bus.Map

/-! # Accesses over the bus

A CPU access looks up the map entry of its address, checks the permission,
reports the absolute address to the watchpoints, and calls the read or write
function of the device's class. The classes themselves are a parameter, and
`σ` is the private data of all devices of the machine.
-/
namespace Exec09
open Foundation

inductive DeviceClass
  | null | ram | rom | console | mmu | disk | smallMmu | ioexpand | serial | imux | hostfile
  | oscillator | wpcAsic | sdmapper
  deriving DecidableEq, Repr

structure Device where
  cls : DeviceClass
  size : ℕ
  deriving DecidableEq, Repr

/-- The two functions used for `machine->fault`. -/
inductive FaultHandler
  | fault
  | wpcFault
  deriving DecidableEq, Repr

def FAULT_NOT_WRITABLE : ℕ := 1
def FAULT_NO_RESPONSE : ℕ := 2
def FAULT_NOT_READABLE : ℕ := 3

/-- What the watchpoints and the fault handler are told. -/
inductive BusEvent
  | readHook (addr : ℕ)
  | writeHook (addr : ℕ) (val : U8)
  | fault (addr type : ℕ)
  deriving DecidableEq

/-- The globals of `machine.c`. The device with number 0 is `null_device`. -/
structure Board (σ : Type) where
  devices : List Device
  /-- `device_table` has `MAX_BUS_DEVICES` places. -/
  attached : devices.length ≤ 32
  busmaps : BusMaps
  defaultBusmaps : BusMaps
  machineFault : FaultHandler
  cpuRunning : Bool
  debugEnabled : Bool
  monitorOn : Bool
  /-- The buffers of the RAM and ROM devices, by device number. -/
  mem : ℕ → ℕ → U8
  /-- The events so far, latest first. -/
  log : List BusEvent
  priv : σ

abbrev BoardM (σ : Type) := EStateM Stop (Board σ)

/-- The read and write functions of the device classes, by device number. -/
structure Hardware (σ : Type) where
  read : (pc dev offset : ℕ) → BoardM σ U8
  write : (pc dev offset : ℕ) → U8 → BoardM σ Unit

variable {σ : Type}

def Board.record (e : BusEvent) (s : Board σ) : Board σ := { s with log := e :: s.log }

/-- No device has this number, or it is `INVALID_DEVID`. -/
def Board.unattached (s : Board σ) (id : ℕ) : Bool :=
  Word.trunc 8 id == INVALID_DEVID || s.devices.length ≤ Word.trunc 8 id

namespace Access

def simError : BoardM σ Unit := do
  let s ← get
  if s.debugEnabled then modify fun s => { s with monitorOn := true }
  else throw (.exit 2)

/-- `machine->fault`. -/
def fault (addr type : ℕ) : BoardM σ Unit := do
  modify (Board.record (.fault addr type))
  let s ← get
  match s.machineFault with
  | .fault => if s.cpuRunning then simError
  | .wpcFault => pure ()

def doFault (addr type : ℕ) : BoardM σ Unit := do
  let s ← get
  if s.cpuRunning then fault addr type

/-- The device with the given number, or `null_device`. -/
def findDevice (addr id : ℕ) : BoardM σ ℕ := do
  let s ← get
  if s.unattached id then do
    doFault addr FAULT_NO_RESPONSE
    return 0
  else return Word.trunc 8 id

def entry (addr : ℕ) : BoardM σ BusEntry := do
  let s ← get
  if addr / 128 < 512 then return findMap s.busmaps addr
  else throw (.fatal .mapIndex)

def absoluteFromReladdr (device reladdr : ℕ) : ℕ := Word.trunc 64 (device * 0x10000000 + reladdr)

/-- The part of `cpu_read8` and `cpu_read16` before the device is read: its number and the
offset in it. -/
def readTarget (addr : ℕ) : BoardM σ (ℕ × ℕ) := do
  let map ← entry addr
  let dev ← findDevice addr map.devid
  let phyAddr := Word.trunc 64 (map.offset + addr % 128)
  let s ← get
  if s.cpuRunning && !map.readable then fault addr FAULT_NOT_READABLE
  modify (Board.record (.readHook (absoluteFromReladdr map.devid phyAddr)))
  return (dev, phyAddr)

def cpuRead8 (hw : Hardware σ) (pc addr : ℕ) : BoardM σ U8 := do
  let (dev, phyAddr) ← readTarget addr
  hw.read pc dev phyAddr

/-- C leaves open which of the two bytes is read first; the high byte is here. -/
def cpuRead16 (hw : Hardware σ) (pc addr : ℕ) : BoardM σ U16 := do
  let (dev, phyAddr) ← readTarget addr
  let high ← hw.read pc dev phyAddr
  let low ← hw.read pc dev (Word.trunc 64 (phyAddr + 1))
  return high ++ low

/-- The data go to the device, nowhere, or into a fault. -/
def writeChecked (hw : Hardware σ) (pc addr dev phyAddr : ℕ) (map : BusEntry) (val : U8) :
    BoardM σ Unit := do
  let s ← get
  if !s.cpuRunning || map.writable then hw.write pc dev phyAddr val
  else if map.ignoreWrite then pure ()
  else doFault addr FAULT_NOT_WRITABLE

def cpuWrite8 (hw : Hardware σ) (pc addr : ℕ) (val : U8) : BoardM σ Unit := do
  let map ← entry addr
  let dev ← findDevice addr map.devid
  let phyAddr := Word.trunc 64 (map.offset + addr % 128)
  writeChecked hw pc addr dev phyAddr map val
  modify (Board.record (.writeHook (absoluteFromReladdr map.devid phyAddr) val))

/-- The part of `abs_read8` before the device is read. -/
def absTarget (addr : ℕ) : BoardM σ (ℕ × ℕ) := do
  let id := Word.trunc 32 (addr >>> 28)
  let phyAddr := addr &&& 0xFFFFFFF
  let dev ← findDevice (Word.trunc 32 addr) id
  return (dev, phyAddr)

def absRead8 (hw : Hardware σ) (pc addr : ℕ) : BoardM σ U8 := do
  let (dev, phyAddr) ← absTarget addr
  hw.read pc dev phyAddr

def toAbsolute (maps : BusMaps) (cpuaddr : ℕ) : ℕ :=
  if cpuaddr > 0xffff then cpuaddr
  else
    let map := findMap maps cpuaddr
    absoluteFromReladdr map.devid (Word.trunc 64 (map.offset + cpuaddr % 128))

end Access

/-! ## What an access does before it reaches the device -/

namespace Board

/-- A fault ends the emulator. -/
def faultStops (s : Board σ) : Bool :=
  s.cpuRunning && s.machineFault == .fault && !s.debugEnabled

/-- The state in which a fault leaves the emulator if it goes on. -/
def faulted (addr type : ℕ) (s : Board σ) : Board σ :=
  { s.record (.fault addr type) with
    monitorOn := s.monitorOn || s.machineFault == .fault && s.cpuRunning }

/-- The faults of a read, latest first. -/
def readFaults (s : Board σ) (addr : ℕ) : List BusEvent :=
  (if s.cpuRunning && !(findMap s.busmaps addr).readable
    then [.fault addr FAULT_NOT_READABLE] else []) ++
  if s.cpuRunning && s.unattached (findMap s.busmaps addr).devid
    then [.fault addr FAULT_NO_RESPONSE] else []

/-- A read of the address ends the emulator. -/
def readStops (s : Board σ) (addr : ℕ) : Bool :=
  s.faultStops &&
    (s.unattached (findMap s.busmaps addr).devid || !(findMap s.busmaps addr).readable)

/-- A read of the address sets `monitor_on`, if it does not end the emulator. -/
def readReports (s : Board σ) (addr : ℕ) : Bool :=
  s.machineFault == .fault && s.cpuRunning &&
    (s.unattached (findMap s.busmaps addr).devid || !(findMap s.busmaps addr).readable)

def target (s : Board σ) (addr : ℕ) : ℕ × ℕ :=
  let map := findMap s.busmaps addr
  (if s.unattached map.devid then 0 else Word.trunc 8 map.devid,
    Word.trunc 64 (map.offset + addr % 128))

end Board

namespace Access

theorem fault_run (addr type : ℕ) (s : Board σ) (hr : s.cpuRunning = true) :
    fault addr type s = if s.faultStops then .error (.exit 2) (s.record (.fault addr type))
      else .ok () (s.faulted addr type) := by
  have hlog : (modify (Board.record (.fault addr type)) : BoardM σ Unit) s =
      .ok () (s.record (.fault addr type)) := rfl
  rw [fault, run_bind_ok hlog, run_bind_ok run_get]
  cases hf : s.machineFault with
  | fault =>
    have hf' : (s.record (.fault addr type)).machineFault = .fault := hf
    have hr' : (s.record (.fault addr type)).cpuRunning = true := hr
    simp only [hf', hr', simError, if_true]
    rw [run_bind_ok run_get]
    cases hd : s.debugEnabled with
    | true =>
      have hd' : (s.record (.fault addr type)).debugEnabled = true := hd
      simp [Board.faultStops, Board.faulted, hf, hr, hd, hd']
    | false =>
      have hd' : (s.record (.fault addr type)).debugEnabled = false := hd
      simp [Board.faultStops, hf, hr, hd, hd']
  | wpcFault =>
    simp [Board.faultStops, Board.faulted, hf, Board.record]

theorem findDevice_attached (addr : ℕ) {id : ℕ} {s : Board σ} (h : s.unattached id = false) :
    findDevice addr id s = .ok (Word.trunc 8 id) s := by
  rw [findDevice, run_bind_ok run_get]
  simp [h]

theorem findDevice_unattached (addr : ℕ) {id : ℕ} {s : Board σ} (h : s.unattached id = true) :
    findDevice addr id s =
      if s.cpuRunning then
        if s.faultStops then .error (.exit 2) (s.record (.fault addr FAULT_NO_RESPONSE))
        else .ok 0 (s.faulted addr FAULT_NO_RESPONSE)
      else .ok 0 s := by
  rw [findDevice, run_bind_ok run_get, if_pos h]
  cases hr : s.cpuRunning with
  | false =>
    have hd : doFault addr FAULT_NO_RESPONSE s = .ok () s := by
      rw [doFault, run_bind_ok run_get]
      simp [hr]
    rw [run_bind_ok hd]
    rfl
  | true =>
    have hd : doFault addr FAULT_NO_RESPONSE s = fault addr FAULT_NO_RESPONSE s := by
      rw [doFault, run_bind_ok run_get]
      simp [hr]
    have hf := fault_run addr FAULT_NO_RESPONSE s hr
    cases hs : s.faultStops with
    | true =>
      rw [hs] at hf
      rw [run_bind_error (hd.trans hf)]
      rfl
    | false =>
      rw [hs] at hf
      rw [run_bind_ok (hd.trans hf)]
      rfl

theorem entry_run {addr : ℕ} (ha : addr < 0x10000) (s : Board σ) :
    entry addr s = .ok (findMap s.busmaps addr) s := by
  rw [entry, run_bind_ok run_get, if_pos (by omega)]
  rfl

theorem findDevice_of_readStops (named : ℕ) {addr : ℕ} {s : Board σ}
    (h : s.readStops addr = false) :
    findDevice named (findMap s.busmaps addr).devid s = .ok (s.target addr).1 { s with
      monitorOn := s.monitorOn || s.machineFault == .fault && s.cpuRunning &&
        s.unattached (findMap s.busmaps addr).devid
      log := (if s.cpuRunning && s.unattached (findMap s.busmaps addr).devid
        then [.fault named FAULT_NO_RESPONSE] else []) ++ s.log } := by
  cases hu : s.unattached (findMap s.busmaps addr).devid with
  | false =>
    rw [findDevice_attached named hu]
    simp [Board.target, hu]
  | true =>
    have htarget : (s.target addr).1 = 0 := by simp [Board.target, hu]
    rw [findDevice_unattached named hu, htarget]
    by_cases hr : s.cpuRunning = true
    · have hs : s.faultStops = false := by simpa [Board.readStops, hu] using h
      rw [if_pos hr, if_neg (by simp [hs]), if_pos (by simp [hr]), Bool.and_true]
      rfl
    · have hidle : (s.monitorOn || s.machineFault == .fault && s.cpuRunning && true) = s.monitorOn := by
        rw [Bool.eq_false_iff.mpr hr]
        simp
      rw [if_neg hr, if_neg (by simp [hr]), List.nil_append, hidle]

/-- A read that does not end the emulator gets to its device. -/
theorem readTarget_run {addr : ℕ} (ha : addr < 0x10000) {s : Board σ}
    (h : s.readStops addr = false) : readTarget addr s = .ok (s.target addr) { s with
      monitorOn := s.monitorOn || s.readReports addr
      log := .readHook (toAbsolute s.busmaps addr) :: (s.readFaults addr ++ s.log) } := by
  have hfind := findDevice_of_readStops addr h
  have habs : toAbsolute s.busmaps addr = absoluteFromReladdr (findMap s.busmaps addr).devid
      (Word.trunc 64 ((findMap s.busmaps addr).offset + addr % 128)) := by
    rw [toAbsolute, if_neg (by omega)]
  rw [readTarget, run_bind_ok (entry_run ha s), run_bind_ok hfind, run_bind_ok run_get]
  cases hd : s.cpuRunning && !(findMap s.busmaps addr).readable with
  | false =>
    have hreports : s.readReports addr = (s.machineFault == .fault && s.cpuRunning &&
        s.unattached (findMap s.busmaps addr).devid) := by
      cases hr : s.cpuRunning <;> simp_all [Board.readReports]
    simp only [hd, habs, Board.readFaults, hreports]
    rfl
  | true =>
    obtain ⟨hr, hread⟩ : s.cpuRunning = true ∧ (findMap s.busmaps addr).readable = false := by
      simpa using hd
    have hs : s.faultStops = false := by simpa [Board.readStops, hread] using h
    generalize hmonitor : (s.monitorOn || s.machineFault == .fault && s.cpuRunning &&
      s.unattached (findMap s.busmaps addr).devid) = m
    generalize hlog : (if s.cpuRunning && s.unattached (findMap s.busmaps addr).devid
      then [BusEvent.fault addr FAULT_NO_RESPONSE] else []) ++ s.log = log
    have hf := fault_run addr FAULT_NOT_READABLE { s with monitorOn := m, log := log } hr
    rw [if_neg (by simpa [Board.faultStops] using hs)] at hf
    have hfaults : s.readFaults addr ++ s.log = .fault addr FAULT_NOT_READABLE :: log := by
      rw [← hlog, Board.readFaults, if_pos hd, List.append_assoc]
      rfl
    have hreports : (s.monitorOn || s.readReports addr) =
        (m || s.machineFault == .fault && s.cpuRunning) := by
      rw [← hmonitor, Board.readReports, hr, hread]
      cases s.monitorOn <;> cases s.machineFault == .fault <;> simp
    rw [if_pos rfl, run_bind_ok hf, hfaults, habs, hreports]
    rfl

theorem readTarget_ok {addr : ℕ} (ha : addr < 0x10000) {s : Board σ}
    (h : s.readStops addr = false) :
    ∃ m, readTarget addr s = .ok (s.target addr) { s with
      monitorOn := m
      log := .readHook (toAbsolute s.busmaps addr) :: (s.readFaults addr ++ s.log) } :=
  ⟨_, readTarget_run ha h⟩

theorem readTarget_error {addr : ℕ} (ha : addr < 0x10000) {s : Board σ}
    (h : s.readStops addr = true) : ∃ t, readTarget addr s = .error (.exit 2) t := by
  simp only [Board.readStops, Bool.and_eq_true, Bool.or_eq_true, Bool.not_eq_true'] at h
  obtain ⟨hs, hdenied⟩ := h
  have hr : s.cpuRunning = true := by
    simp only [Board.faultStops, Bool.and_eq_true] at hs
    exact hs.1.1
  rw [readTarget, run_bind_ok (entry_run ha s)]
  cases hu : s.unattached (findMap s.busmaps addr).devid with
  | true =>
    have hfind := findDevice_unattached addr hu
    rw [if_pos hr, if_pos hs] at hfind
    exact ⟨_, run_bind_error hfind⟩
  | false =>
    have hread : (findMap s.busmaps addr).readable = false := by simpa [hu] using hdenied
    have hf := fault_run addr FAULT_NOT_READABLE s hr
    rw [if_pos hs] at hf
    rw [run_bind_ok (findDevice_attached addr hu), run_bind_ok run_get, if_pos (by simp [hr, hread])]
    exact ⟨_, run_bind_error hf⟩

/-- A read that is allowed goes to the device and the place that the address resolves to. -/
theorem cpuRead8_resolved (hw : Hardware σ) (pc : ℕ) {addr : ℕ} (ha : addr < 0x10000)
    {s : Board σ} {r : Resolution} (hr : resolve s.busmaps addr = r)
    (hattached : s.unattached r.devid = false) (hread : r.flags &&& MAP_READABLE ≠ 0) :
    ∃ e, cpuRead8 hw pc addr s = hw.read pc (Word.trunc 8 r.devid) r.offset (s.record e) := by
  subst hr
  have hreadable : (findMap s.busmaps addr).readable = true := by
    rw [BusEntry.readable, bne_iff_ne]
    exact hread
  have hdev : s.unattached (findMap s.busmaps addr).devid = false := hattached
  generalize hmap : findMap s.busmaps addr = map at hdev hreadable
  have htarget : readTarget addr s = .ok (Word.trunc 8 map.devid,
      Word.trunc 64 (map.offset + addr % 128)) (s.record (.readHook (absoluteFromReladdr map.devid
        (Word.trunc 64 (map.offset + addr % 128))))) := by
    rw [readTarget, run_bind_ok (entry_run ha s), hmap,
      run_bind_ok (findDevice_attached addr hdev), run_bind_ok run_get, hreadable]
    simp only [Bool.not_true, Bool.and_false, Bool.false_eq_true, if_false]
    rfl
  refine ⟨.readHook (absoluteFromReladdr map.devid (Word.trunc 64 (map.offset + addr % 128))), ?_⟩
  rw [cpuRead8, run_bind_ok htarget, resolve, hmap]
  rfl

/-- Before the CPU runs, or with the permission, a write goes there too. -/
theorem cpuWrite8_resolved (hw : Hardware σ) (pc : ℕ) {addr : ℕ} (ha : addr < 0x10000) (val : U8)
    {s : Board σ} {r : Resolution} (hr : resolve s.busmaps addr = r)
    (hattached : s.unattached r.devid = false)
    (hwrite : s.cpuRunning = false ∨ r.flags &&& MAP_WRITABLE ≠ 0) :
    ∃ e, cpuWrite8 hw pc addr val s =
      (do hw.write pc (Word.trunc 8 r.devid) r.offset val; modify (Board.record e)) s := by
  subst hr
  have hallowed : (!s.cpuRunning || (findMap s.busmaps addr).writable) = true := by
    rw [Bool.or_eq_true, Bool.not_eq_true', BusEntry.writable, bne_iff_ne]
    exact hwrite
  have hdev : s.unattached (findMap s.busmaps addr).devid = false := hattached
  generalize hmap : findMap s.busmaps addr = map at hdev hallowed
  generalize hoffset : Word.trunc 64 (map.offset + addr % 128) = offset
  have hchecked : writeChecked hw pc addr (Word.trunc 8 map.devid) offset map val s =
      hw.write pc (Word.trunc 8 map.devid) offset val s := by
    rw [writeChecked, run_bind_ok run_get, if_pos hallowed]
  have hresolved : resolve s.busmaps addr = ⟨map.devid, offset, map.flags⟩ := by
    rw [resolve, hmap, ← hoffset]
    rfl
  refine ⟨.writeHook (absoluteFromReladdr map.devid offset) val, ?_⟩
  rw [cpuWrite8, run_bind_ok (entry_run ha s), hmap,
    run_bind_ok (findDevice_attached addr hdev), hoffset, hresolved]
  cases hrun : hw.write pc (Word.trunc 8 map.devid) offset val s with
  | ok u t => rw [run_bind_ok (hchecked.trans hrun), run_bind_ok hrun]
  | error e t => rw [run_bind_error (hchecked.trans hrun), run_bind_error hrun]

/-- A write without the permission changes no more than the log. -/
theorem cpuWrite8_denied (hw : Hardware σ) (pc : ℕ) {addr : ℕ} (ha : addr < 0x10000) (val : U8)
    {s : Board σ} {r : Resolution} (hr : resolve s.busmaps addr = r)
    (hattached : s.unattached r.devid = false) (hrunning : s.cpuRunning = true)
    (hdenied : r.flags &&& MAP_WRITABLE = 0) :
    ∃ log m, finalState (cpuWrite8 hw pc addr val s) = { s with log := log, monitorOn := m } := by
  subst hr
  have hallowed : ¬(!s.cpuRunning || (findMap s.busmaps addr).writable) = true := by
    rw [hrunning, Bool.not_true, Bool.false_or, BusEntry.writable, bne_iff_ne]
    exact not_not.mpr hdenied
  have hdev : s.unattached (findMap s.busmaps addr).devid = false := hattached
  generalize hmap : findMap s.busmaps addr = map at hdev hallowed
  rw [cpuWrite8, run_bind_ok (entry_run ha s), hmap, run_bind_ok (findDevice_attached addr hdev)]
  have hchecked : writeChecked hw pc addr (Word.trunc 8 map.devid)
      (Word.trunc 64 (map.offset + addr % 128)) map val s =
      if map.ignoreWrite then .ok () s else fault addr FAULT_NOT_WRITABLE s := by
    rw [writeChecked, run_bind_ok run_get, if_neg hallowed]
    split
    · rfl
    · rw [doFault, run_bind_ok run_get, if_pos hrunning]
  by_cases hignore : map.ignoreWrite = true
  · rw [if_pos hignore] at hchecked
    rw [run_bind_ok hchecked]
    exact ⟨_, _, rfl⟩
  · rw [if_neg hignore, fault_run addr _ s hrunning] at hchecked
    by_cases hstops : s.faultStops = true
    · rw [if_pos hstops] at hchecked
      rw [run_bind_error hchecked]
      exact ⟨_, _, rfl⟩
    · rw [if_neg hstops] at hchecked
      rw [run_bind_ok hchecked]
      exact ⟨_, _, rfl⟩

end Access

end Exec09
