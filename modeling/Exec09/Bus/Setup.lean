import Exec09.Bus.Access

/-! # Attaching and mapping devices

`machine_init` runs before the CPU does. It attaches the devices of the
machine, each of which gets the next free number and is reset, and maps them.
-/
namespace Exec09
open Foundation
variable {σ : Type}

/-- `bus_map` on the map of the machine. -/
def mapBus (c : MapCall) : BoardM σ Unit := do
  let s ← get
  match busMap c s.busmaps with
  | some maps => modify fun s => { s with busmaps := maps }
  | none => throw (.fatal .mapIndex)

def deviceAttach (d : Device) (reset : ℕ → BoardM σ Unit) : BoardM σ ℕ := do
  let s ← get
  if h : s.devices.length < 32 then
    set { s with devices := s.devices ++ [d], attached := by simp; omega }
    reset s.devices.length
    return s.devices.length
  else throw (.fatal .arrayIndex)

@[irreducible] def deviceDefine (devid offset addr len flags : ℕ) : BoardM σ Unit :=
  mapBus ⟨addr, devid, offset, len, flags⟩

def nullReset (_ : ℕ) : BoardM σ Unit := pure ()

def nullCreate : BoardM σ ℕ := deviceAttach ⟨.null, 0⟩ nullReset

def Board.setMem (dev offset : ℕ) (v : U8) (s : Board σ) : Board σ :=
  { s with mem := fun d a => if d = dev ∧ a = offset then v else s.mem d a }

/-- `ram_reset` fills the buffer with zeros. -/
def ramReset (dev : ℕ) : BoardM σ Unit :=
  modify fun s => { s with mem := fun d a => if d = dev then 0 else s.mem d a }

def ramCreate (size : ℕ) : BoardM σ ℕ := deviceAttach ⟨.ram, size⟩ ramReset

/-- A ROM whose buffer holds `contents` once the image is loaded. -/
def romCreate (contents : ℕ → U8) (maxsize : ℕ) : BoardM σ ℕ := do
  let dev ← deviceAttach ⟨.rom, maxsize⟩ nullReset
  modify fun s => { s with mem := fun d a => if d = dev then contents a else s.mem d a }
  return dev

/-- The size of a device. -/
def Board.size (s : Board σ) (dev : ℕ) : ℕ := (s.devices.getD dev ⟨.null, 0⟩).size

def ramRead (dev offset : ℕ) : BoardM σ U8 := do
  let s ← get
  if offset < s.size dev then return s.mem dev offset
  else throw (.fatal .bufferRead)

def ramWrite (dev offset : ℕ) (v : U8) : BoardM σ Unit := do
  let s ← get
  if offset < s.size dev then modify (Board.setMem dev offset v)
  else throw (.fatal .bufferWrite)

/-- The globals of `machine.c` when the program starts. -/
def Board.start (machineFault : FaultHandler) (debugEnabled : Bool) (priv : σ) : Board σ where
  devices := []
  attached := by decide
  busmaps := initialBusmaps
  defaultBusmaps := initialBusmaps
  machineFault := machineFault
  cpuRunning := false
  debugEnabled := debugEnabled
  monitorOn := false
  mem _ _ := 0
  log := []
  priv := priv

/-- `machine_init` around the `init` function of the machine. -/
def machineInit (init : BoardM σ Unit) : BoardM σ Unit := do
  let _ ← nullCreate
  modify fun s => { s with busmaps := initialBusmaps }
  init
  modify fun s => { s with defaultBusmaps := s.busmaps }

/-! ## What the steps of the setup do -/

def Board.mapped (c : MapCall) (s : Board σ) : Board σ :=
  { s with busmaps := c.layer.stamp BusEntry.fixed s.busmaps }

theorem mapBus_run {c : MapCall} (hc : c.Aligned) (s : Board σ) :
    mapBus c s = .ok () (s.mapped c) := by
  rw [mapBus, run_bind_ok run_get, busMap_eq hc]
  rfl

theorem runAll_mapBus {cs : List MapCall} (hcs : ∀ c ∈ cs, c.Aligned) (s : Board σ) :
    runAll mapBus cs s =
      .ok () { s with busmaps := Layer.lay BusEntry.fixed (cs.map MapCall.layer) s.busmaps } := by
  induction cs generalizing s with
  | nil => rfl
  | cons c cs ih =>
    rw [runAll, run_bind_ok (mapBus_run (hcs c List.mem_cons_self) s),
      ih fun d hd => hcs d (List.mem_cons_of_mem c hd)]
    rfl

/-- The devices attached, the map, and a property of the devices' private data. -/
structure Board.Has (devs : List Device) (maps : BusMaps) (P : σ → Prop) (s : Board σ) : Prop where
  devices : s.devices = devs
  busmaps : s.busmaps = maps
  priv : P s.priv

variable {devs : List Device} {maps : BusMaps} {P : σ → Prop} {E : Board σ → Prop}

theorem deviceAttach_has {d : Device} {reset : ℕ → BoardM σ Unit} {R : Board σ → Prop}
    (h : devs.length < 32)
    (hr : Triple (Board.Has (devs ++ [d]) maps P) (reset devs.length) (fun _ => R) E) :
    Triple (Board.Has devs maps P) (deviceAttach d reset) (fun n s => n = devs.length ∧ R s) E := by
  rintro s ⟨rfl, hmaps, hpriv⟩
  rw [deviceAttach, run_bind_ok run_get, dif_pos h]
  have hset : (set ({ s with devices := s.devices ++ [d], attached := by simp; omega } : Board σ) :
      BoardM σ Unit) s =
      .ok () { s with devices := s.devices ++ [d], attached := by simp; omega } := rfl
  rw [run_bind_ok hset]
  have hreset := hr { s with devices := s.devices ++ [d], attached := by simp; omega }
    ⟨rfl, hmaps, hpriv⟩
  cases hrun : reset s.devices.length
    { s with devices := s.devices ++ [d], attached := by simp; omega } with
  | ok a t =>
    rw [hrun] at hreset
    rw [run_bind_ok hrun]
    exact ⟨rfl, hreset⟩
  | error e t =>
    rw [hrun] at hreset
    rw [run_bind_error hrun]
    exact hreset

theorem nullReset_has (n : ℕ) :
    Triple (Board.Has devs maps P) (nullReset n) (fun _ => Board.Has devs maps P) E :=
  Triple.pure _ fun _ h => h

theorem ramReset_has (n : ℕ) :
    Triple (Board.Has devs maps P) (ramReset n) (fun _ => Board.Has devs maps P) E :=
  Triple.modify fun _ h => ⟨h.devices, h.busmaps, h.priv⟩

theorem nullCreate_has (h : devs.length < 32) :
    Triple (Board.Has devs maps P) nullCreate
      (fun n s => n = devs.length ∧ Board.Has (devs ++ [⟨.null, 0⟩]) maps P s) E :=
  deviceAttach_has h (nullReset_has _)

theorem ramCreate_has {size : ℕ} (h : devs.length < 32) :
    Triple (Board.Has devs maps P) (ramCreate size)
      (fun n s => n = devs.length ∧ Board.Has (devs ++ [⟨.ram, size⟩]) maps P s) E :=
  deviceAttach_has h (ramReset_has _)

theorem romCreate_has {contents : ℕ → U8} {size : ℕ} (h : devs.length < 32) :
    Triple (Board.Has devs maps P) (romCreate contents size)
      (fun n s => n = devs.length ∧ Board.Has (devs ++ [⟨.rom, size⟩]) maps P s) E := by
  apply Triple.value (deviceAttach_has h (nullReset_has _))
  exact (Triple.modify fun s hs => ⟨hs.devices, hs.busmaps, hs.priv⟩).bind fun _ =>
    Triple.pure _ fun s hs => ⟨rfl, hs⟩

theorem mapBus_has {c : MapCall} (hc : c.Aligned) :
    Triple (Board.Has devs maps P) (mapBus c)
      (fun _ => Board.Has devs (c.layer.stamp BusEntry.fixed maps) P) E := by
  rintro s ⟨hdevs, rfl, hpriv⟩
  rw [mapBus_run hc]
  exact ⟨hdevs, rfl, hpriv⟩

theorem deviceDefine_has {devid offset addr len flags : ℕ}
    (hc : (⟨addr, devid, offset, len, flags⟩ : MapCall).Aligned) :
    Triple (Board.Has devs maps P) (deviceDefine devid offset addr len flags)
      (fun _ => Board.Has devs
        ((⟨addr, devid, offset, len, flags⟩ : MapCall).layer.stamp BusEntry.fixed maps) P) E := by
  rw [deviceDefine]
  exact mapBus_has hc

theorem machineInit_has {init : BoardM σ Unit} {R S : Board σ → Prop}
    (h : Triple (Board.Has [⟨.null, 0⟩] initialBusmaps P) init (fun _ => R) E)
    (hdefault : ∀ s, R s → S { s with defaultBusmaps := s.busmaps }) :
    Triple (fun s => s.devices = [] ∧ P s.priv) (machineInit init) (fun _ => S) E := by
  have hnull : Triple (fun s => s.devices = [] ∧ P s.priv) nullCreate
      (fun _ s => s.devices = [⟨.null, 0⟩] ∧ P s.priv) E := by
    rintro s ⟨hdevs, hpriv⟩
    exact (nullCreate_has (by decide)).mono (fun _ h => h) (fun _ t ht => ⟨ht.2.devices, ht.2.priv⟩)
      (fun _ h => h) s ⟨hdevs, rfl, hpriv⟩
  apply hnull.bind
  intro _
  apply Triple.bind (Q := fun _ => Board.Has [⟨.null, 0⟩] initialBusmaps P)
  · exact Triple.modify fun s hs => ⟨hs.1, rfl, hs.2⟩
  intro _
  apply h.bind
  intro _
  exact Triple.modify hdefault

end Exec09
