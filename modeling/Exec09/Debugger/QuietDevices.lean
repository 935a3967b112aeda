import Exec09.Debugger.Inspection
import Exec09.Devices.SerialQueue
import Exec09.Machines.Eon2Reach

/-! # Devices that are looked at

A display changes nothing in the RAM. A serial port brings its status up to
date on every read, and a read of its data takes a byte that waits.
-/
namespace Exec09.Debugger
open Foundation

/-- A display of RAM changes nothing, as long as it stays in its buffer. -/
theorem quietAt_ram {σ : Type} {hw : Hardware σ} {dev phyAddr : ℕ} {c : Cpu (Board σ)}
    (hread : hw.read (getPc c) dev phyAddr = ramRead dev phyAddr) (hlog : c.bus.log = []) :
    QuietAt hw dev phyAddr c ↔ phyAddr < c.bus.size dev := by
  rw [QuietAt, hread, ramRead]
  by_cases hsize : phyAddr < c.bus.size dev
  · refine iff_of_true ⟨c.bus.mem dev phyAddr, c.bus, ?_, ?_⟩ hsize
    · rw [run_bind_ok run_get, if_pos hsize]
      rfl
    · rw [← hlog]
  · refine iff_of_false ?_ hsize
    rintro ⟨v, b, h, -⟩
    rw [run_bind_ok run_get, if_neg hsize] at h
    cases h

section Ram
variable {σ : Type} [Target (Cpu (Board σ))] {hw : Hardware σ} {s : State (Cpu (Board σ))}

omit [Target (Cpu (Board σ))] in
/-- The pointers do not look at the bus. -/
theorem pointer_machine {pointer : Cpu (Board σ) → ℕ} (h : pointer ∈ pointers) :
    pointer s.session.target = pointer (machine s) := by
  simp only [pointers, List.mem_cons, List.not_mem_nil, or_false] at h
  rcases h with rfl | rfl | rfl | rfl | rfl | rfl <;> rfl

/-- The word at the address can be read, and lies in the buffer. -/
def InRam (addr : ℕ) (b : Board σ) : Prop :=
  addr < 0x10000 ∧ b.readReports addr = false ∧ (b.target addr).2 + 1 < b.size (b.target addr).1

/-- With all pointers in RAM and no active breakpoint the display changes nothing. -/
theorem transparent_ram (hread : ∀ pc dev offset, hw.read pc dev offset = ramRead dev offset)
    (hidle : s.activeBreakCount = 0)
    (hram : ∀ pointer ∈ pointers, InRam (pointer (machine s)) (machine s).bus) :
    Transparent hw s := by
  refine transparent_iff.mp (along_of_invariant
    (I := fun t => machine t = machine s ∧ t.activeBreakCount = 0) ⟨rfl, hidle⟩ ?_)
  rintro pointer hmem t ⟨hmachine, hcount⟩
  have hin := hram pointer hmem
  rw [← hmachine, ← pointer_machine hmem] at hin
  obtain ⟨hlt, hreports, hsize⟩ := hin
  have hnext : Word.trunc 64 (((machine t).bus.target (pointer t.session.target)).2 + 1) ≤
      ((machine t).bus.target (pointer t.session.target)).2 + 1 := Nat.mod_le _ _
  have hharmless : Harmless hw pointer t := by
    refine ⟨⟨hlt, fun h => ?_⟩, fun n h => ?_, ?_, ?_⟩
    · rw [hreports] at h
      cases h
    · rw [triggered, if_pos hcount] at h
      cases h
    · exact (quietAt_ram (hread _ _ _) rfl).mpr (by omega)
    · exact (quietAt_ram (hread _ _ _) rfl).mpr (by omega)
  have hword := harmless_iff.mp hharmless .low
  rw [inspectPart_low] at hword
  obtain ⟨_, u, hrun, hsame, hcounters⟩ := hword.run
  refine ⟨hharmless, (onReturn_ok hrun).mpr ⟨hsame.trans hmachine, ?_⟩⟩
  exact (congrArg Prod.fst hcounters).trans hcount

end Ram

/-! ## The serial port -/

/-- Nothing waits for the guest, and the status is up to date. -/
def Idle (p : SerialPort) (h : Exec09.Host) : Prop :=
  p.update h = p ∧ p.rxCount = 0 ∧ (p.fin < 2 → h.input p.fin = [])

/-- A read of the data changes nothing exactly if the port is idle. -/
theorem read_idle_iff {p : SerialPort} {h : Exec09.Host} : (p.read 0 h).2 = (p, h) ↔ Idle p h := by
  have hstatus := SerialPort.update_readOk p h
  have hrun : (p.read 0 h).2 = ((p.update h).readData h).2 := rfl
  have hcount : (p.update h).rxCount = p.rxCount := rfl
  have hfin : (p.update h).fin = p.fin := rfl
  rw [hrun, SerialPort.readData, Idle]
  generalize p.update h = q at hstatus hcount hfin
  by_cases hqueue : p.rxCount = 0
  · rw [hcount, if_neg (not_not.mpr hqueue)]
    by_cases hok : q.status &&& SER_STAT_READOK = 0
    · have hnone : p.fin < 2 → h.input p.fin = [] := by
        intro hlow
        have hunready : h.readable p.fin = false :=
          Bool.eq_false_iff.mpr fun hready => hstatus.mpr (.inr ⟨hlow, hready⟩) hok
        rw [Host.readable, Bool.or_eq_false_iff] at hunready
        simpa using hunready.1
      rw [if_pos hok, Prod.mk.injEq]
      exact ⟨fun heq => ⟨heq.1, hqueue, hnone⟩, fun hidle => ⟨hidle.1, rfl⟩⟩
    · have hlow : p.fin < 2 := by
        rcases hstatus.mp hok with hpositive | hready
        · omega
        · exact hready.1
      rw [if_neg hok, hfin]
      cases hinput : h.input p.fin with
      | nil =>
        rw [Prod.mk.injEq]
        exact ⟨fun heq => ⟨heq.1, hqueue, fun _ => rfl⟩, fun hidle => ⟨hidle.1, rfl⟩⟩
      | cons val rest =>
        refine iff_of_false (fun heq => ?_) fun hidle => ?_
        · have htaken : rest = h.input p.fin := by
            simpa using congrArg (fun r => r.2.input p.fin) heq
          rw [hinput] at htaken
          exact List.cons_ne_self val rest htaken.symm
        · exact absurd (hidle.2.2 hlow) (List.cons_ne_nil val rest)
  · rw [hcount, if_pos hqueue]
    refine iff_of_false (fun heq => ?_) fun hidle => hqueue hidle.2.1
    have hless : p.rxCount - 1 = p.rxCount := congrArg (fun r => r.1.rxCount) heq
    omega

/-- Looking at the data register of a port of eon2 changes nothing exactly if the port is idle. -/
theorem quietAt_serial {dev phyAddr port : ℕ} {c : Cpu (Board Eon2.Priv)}
    (hthrough : Eon2.throughExpander dev phyAddr c.bus = .ok (port, 0) c.bus)
    (hcls : (c.bus.devices.getD port ⟨.null, 0⟩).cls = .serial) (hlog : c.bus.log = []) :
    QuietAt Eon2.hardware dev phyAddr c ↔ Idle (c.bus.priv.ports port) c.bus.priv.host := by
  rw [← read_idle_iff, QuietAt]
  generalize hresult : (c.bus.priv.ports port).read 0 c.bus.priv.host = r
  have hread : Eon2.hardware.read (getPc c) dev phyAddr c.bus = .ok r.1 { c.bus with
      priv := { Eon2.setPort port (fun _ => r.2.1) c.bus.priv with host := r.2.2 } } := by
    have hclass : Eon2.classRead port 0 c.bus = Eon2.serialRead port 0 c.bus := by
      rw [Eon2.classRead, run_bind_ok run_get, hcls]
    refine (run_bind_ok hthrough).trans (hclass.trans ?_)
    rw [← hresult]
    rfl
  constructor
  · rintro ⟨v, b, h, hb⟩
    rw [hread] at h
    cases h
    have hport : Function.update c.bus.priv.ports port r.2.1 port = c.bus.priv.ports port :=
      congrArg (fun b => b.priv.ports port) hb
    have hhost : r.2.2 = c.bus.priv.host := congrArg (fun b => b.priv.host) hb
    rw [Function.update_self] at hport
    exact Prod.ext hport hhost
  · intro h
    refine ⟨_, _, hread, ?_⟩
    rw [h, ← hlog]
    have hports : Eon2.setPort port (fun _ => c.bus.priv.ports port) c.bus.priv = c.bus.priv := by
      simp [Eon2.setPort]
    rw [hports]

/-! ## A key that waits -/

/-- A processor without symbols, for concrete runs. Every instruction has one byte. -/
instance : Target (Cpu (Board Eon2.Priv)) where
  absRead8 addr := do onBus (Exec09.Access.absRead8 Eon2.hardware (getPc (← get)) addr.toNat)
  absRead16 addr := do
    let high ← onBus (Exec09.Access.absRead8 Eon2.hardware (getPc (← get)) addr.toNat)
    let low ← onBus (Exec09.Access.absRead8 Eon2.hardware (getPc (← get)) (addr + 1).toNat)
    return high ++ low
  absWrite8 addr val := do
    let id := Word.trunc 32 (addr.toNat >>> 28)
    onBus (Eon2.hardware.write (getPc (← get)) id (addr.toNat &&& 0xFFFFFFF) val)
  toAbsolute addr c := BitVec.ofNat 64 (Exec09.Access.toAbsolute c.bus.busmaps addr.toNat)
  getPc c := BitVec.ofNat 16 (getPc c)
  dasm _ := return 1
  readVirtual _ := none
  writeVirtual _ := none
  symbol _ _ := none

/-- Eon2 with a key typed at the terminal, and the serial port at 0xFF00. -/
def eon2Board : Board Eon2.Priv where
  devices := Eon2.devices
  attached := by decide
  busmaps b := if b = 510 then ⟨4, 0, MAP_READWRITE⟩ else ⟨1, 128 * b, MAP_READWRITE⟩
  defaultBusmaps b := if b = 510 then ⟨4, 0, MAP_READWRITE⟩ else ⟨1, 128 * b, MAP_READWRITE⟩
  machineFault := .fault
  cpuRunning := true
  debugEnabled := true
  monitorOn := true
  mem _ _ := 0
  log := []
  priv :=
    { mmu := ⟨fun _ => 0, fun _ _ => 0, 1⟩
      expander := IoExpand.empty.attach 0 0 5
      ports := fun _ => ⟨0, 0, 0, 1, 0, 0, 0, fun _ => 0⟩
      host :=
        { input := fun fd => if fd = 0 then [0x41] else []
          ended := fun _ => false
          writable := fun _ => true
          output := fun _ => []
          stale := 0 }
      disk := ⟨⟨fun _ => 0, 0, 0⟩, 0, 0⟩
      imux := ⟨0, 0, 1⟩
      lines := ⟨0, 0⟩
      oscillator := ⟨0, 0, 0, 0, 0, none, 0⟩ }

/-- The monitor of that machine, with X at the data register of the port. -/
def keyWaiting : State (Cpu (Board Eon2.Priv)) :=
  { State.init { Cpu.powerOn eon2Board with X := 0xFF00 } with monitorOn := true }

/-- The key is gone after the display. -/
theorem key_taken : ¬Untouched (printRegs Eon2.hardware) keyWaiting := by
  intro h
  have hsame := congrArg (fun c : Cpu (Board Eon2.Priv) => c.bus.priv.host.input 0) h.sameMachine
  have hbefore : (machine keyWaiting).bus.priv.host.input 0 = [0x41] := rfl
  have hafter : (machine (finalState (printRegs Eon2.hardware keyWaiting))).bus.priv.host.input 0 =
      [] := by decide +kernel
  rw [hbefore, hafter] at hsame
  cases hsame

end Exec09.Debugger
