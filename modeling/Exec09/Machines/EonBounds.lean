import Mathlib.Tactic.Tauto
import Exec09.Bus.Overrun
import Exec09.Machines.EonReach

/-! # Buffer bounds on eon

The registers of a page can put an access behind the end of the RAM or of the
boot ROM, and a word at the top of the address space always is.
-/
namespace Exec09.Eon
open Foundation Access

variable {image : ℕ → U8} {T : Set ℕ} {s : Board Priv}

theorem RomHeld.devices (h : RomHeld image s) : s.devices = Eon.devices := by
  obtain ⟨T, hT⟩ := h.paged
  exact hT.devices

theorem hardware_flat : Flat (RomHeld image) hardware devices where
  devices := fun _ h => h.devices
  read := by
    intro pc dev offset s h hbuffer
    simp only [hardware]
    rw [run_bind_ok run_get, h.devices]
    rcases hbuffer with hcls | hcls <;> rw [hcls]
  write := by
    intro pc dev offset val s h hbuffer
    simp only [hardware]
    rw [run_bind_ok run_get, h.devices]
    rcases hbuffer with hcls | hcls <;> rw [hcls]
  readOther := by
    intro pc dev offset s h hbuffer
    simp only [hardware]
    rw [run_bind_ok run_get, h.devices]
    rw [Buffered] at hbuffer
    generalize (devices.getD dev ⟨.null, 0⟩).cls = cls at hbuffer
    have hconsole : StopsFor (fun x : Stop => ¬x.Overrun) (consoleRead offset) := by
      rcases offset with _ | _ | _ | offset
      · exact StopsFor.pure _
      · exact StopsFor.pure _
      · refine ⟨fun t x u hrun => ?_⟩
        cases hinput : t.priv.input with
        | nil =>
          rw [consoleRead, run_bind_ok run_get, hinput] at hrun
          cases hrun
        | cons c rest =>
          rw [consoleRead, run_bind_ok run_get, hinput] at hrun
          cases hrun
      · exact StopsFor.pure _
    have hmmu : StopsFor (fun x : Stop => ¬x.Overrun) (mmuRead offset) := by
      rw [mmuRead]
      infer_instance
    cases cls <;> first | exact not_overran | simp at hbuffer
  writeOther := by
    intro pc dev offset val s h hbuffer
    simp only [hardware]
    rw [run_bind_ok run_get, h.devices]
    rw [Buffered] at hbuffer
    generalize (devices.getD dev ⟨.null, 0⟩).cls = cls at hbuffer
    have hconsole : StopsFor (fun x : Stop => ¬x.Overrun) (consoleWrite offset val) := by
      rcases offset with _ | _ | offset
      · exact StopsFor.modify _
      · exact exit_stops _
      · exact StopsFor.pure _
    have hmmu : StopsFor (fun x : Stop => ¬x.Overrun) (mmuWrite offset val) := by
      rw [mmuWrite]
      infer_instance
    have hdisk : StopsFor (fun x : Stop => ¬x.Overrun) (diskWrite offset val) := StopsFor.modify _
    cases cls <;> first | exact not_overran | simp at hbuffer
  keeps := read_keeps
  null := by simp [Buffered, Eon.devices]

/-- The place lies behind the end of the RAM or of the ROM. -/
def Past (dev place : ℕ) : Prop := (dev = 2 ∧ 0x100000 ≤ place) ∨ (dev = 3 ∧ 0x1C00 ≤ place)

/-- The flags of a page let the access through. -/
def Granted (flags : U8) (e : CpuAccess) (s : Board Priv) : Prop :=
  match e with
  | .write8 _ _ _ => flags &&& 2 ≠ 0
  | _ => s.faultStops = false ∨ flags &&& 1 ≠ 0

/-- The registers put the last byte of the access behind the end of a buffer, or it is the byte
behind the boot ROM. -/
def Beyond (T : Set ℕ) (e : CpuAccess) (s : Board Priv) : Prop :=
  (ByRegisters T (e.addr / 0x1000) ∧ e.addr < 0x10000 ∧ ¬(0xE000 ≤ e.addr ∧ e.addr < 0xE080) ∧
    Granted (s.priv.mmuRegs (e.addr / 0x1000) 2) e s ∧
    Past (s.priv.mmuRegs (e.addr / 0x1000) 0).toNat
      ((s.priv.mmuRegs (e.addr / 0x1000) 1).toNat * 0x1000 + e.addr % 0x1000 + e.extra)) ∨
  (¬ByRegisters T (e.addr / 0x1000) ∧ e.addr = 0xFFFF ∧ e.extra = 1)

theorem behind_iff {dev place : ℕ} : Flat.Behind devices dev place ↔ Past dev place := by
  rcases dev with _ | _ | _ | _ | _ | _ | dev <;> simp [Flat.Behind, Buffered, devices, Past]

theorem admitted_iff {e : CpuAccess} {regs : ℕ → U8} (hrunning : s.cpuRunning = true)
    (hentry : findMap s.busmaps e.addr = pageEntry regs (e.addr / 128))
    (hattached : s.unattached (regs 0).toNat = false) : e.Admitted s ↔ Granted (regs 2) e s := by
  have hread : ∀ x : U8, (x.toNat &&& MAP_READWRITE) &&& MAP_READABLE ≠ 0 ↔ x &&& 1 ≠ 0 := by decide
  have hwrite : ∀ x : U8, (x.toNat &&& MAP_READWRITE) &&& MAP_WRITABLE ≠ 0 ↔ x &&& 2 ≠ 0 := by decide
  have hstops (a : ℕ) (ha : findMap s.busmaps a = pageEntry regs (a / 128)) :
      s.readStops a = false ↔ s.faultStops = false ∨ regs 2 &&& 1 ≠ 0 := by
    have hdev : s.unattached (pageEntry regs (a / 128)).devid = false := hattached
    rw [Board.readStops, ha, hdev, ← hread]
    cases s.faultStops <;> simp [pageEntry, BusEntry.readable]
  cases e with
  | read8 pc a => exact hstops a hentry
  | read16 pc a => exact hstops a hentry
  | write8 pc a val =>
    have hentry : findMap s.busmaps a = pageEntry regs (a / 128) := hentry
    simp only [CpuAccess.Admitted, Granted, hrunning, hentry, ← hwrite, pageEntry, BusEntry.writable,
      Bool.true_eq_false, false_or, bne_iff_ne]

theorem past_attached (hdevs : s.devices = devices) {dev place : ℕ} (h : Past dev place) :
    s.unattached dev = false ∧ Word.trunc 8 dev = dev := by
  rcases h with ⟨rfl, -⟩ | ⟨rfl, -⟩
  · exact ⟨by rw [Board.unattached, hdevs]; rfl, rfl⟩
  · exact ⟨by rw [Board.unattached, hdevs]; rfl, rfl⟩

theorem setup_past {addr extra : ℕ} (hlow : 0xE000 ≤ addr) (ha : addr < 0x10000)
    (hmmu : ¬addr < 0xE080) (hextra : extra ≤ 1) :
    Past (setupEntry (addr / 128)).devid ((setupEntry (addr / 128)).offset + addr % 128 + extra) ↔
      addr = 0xFFFF ∧ extra = 1 := by
  have hblock : ¬addr / 128 = 0xE000 / 128 := by omega
  simp only [setupEntry, hblock, if_false, Past]
  split_ifs
  all_goals
    simp
    omega

theorem Paged.offset_lt (h : Paged T s) {b : ℕ} (hb : b < 512) : (s.busmaps b).offset < 2 ^ 32 := by
  have hsetup : ∀ b < 512, (setupEntry b).offset < 2 ^ 32 := by decide +kernel
  by_cases hmmu : b = 448
  · rw [hmmu, h.mmu]
    decide
  · by_cases hpage : ByRegisters T (b / 32)
    · have hreg : (s.priv.mmuRegs (b / 32) 1).toNat < 2 ^ 8 := (s.priv.mmuRegs (b / 32) 1).isLt
      rw [h.regs b hb hmmu hpage, pageEntry]
      dsimp only
      omega
    · rw [h.setup b hb hmmu hpage]
      exact hsetup b hb

/-- On eon an access overruns a buffer exactly if the registers or the setup put it there. -/
theorem Paged.overruns_iff (h : Paged T s) (hrunning : s.cpuRunning = true) (e : CpuAccess) :
    Overruns hardware e s ↔ Beyond T e s := by
  have hheld : RomHeld (s.mem 3) s := ⟨⟨T, h⟩, hrunning, rfl⟩
  by_cases ha : e.addr < 0x10000
  · have hb : e.addr / 128 < 512 := by omega
    have hextra := e.extra_le
    have hpage : e.addr / 128 / 32 = e.addr / 0x1000 := Nat.div_div_eq_div_mul _ 128 32
    have hoffset := h.offset_lt hb
    have hsmall : (s.busmaps (e.addr / 128)).offset + e.addr % 128 < 2 ^ 64 := by omega
    have hplace : (s.target e.addr).2 = (s.busmaps (e.addr / 128)).offset + e.addr % 128 :=
      Word.trunc_of_lt hsmall
    rw [hardware_flat.overruns_iff hheld e (by omega), behind_iff, hplace]
    by_cases hmmu : e.addr / 128 = 448
    · have htarget : (s.target e.addr).1 = 1 := by
        simp only [Board.target, findMap, hmmu, h.mmu, Board.unattached, h.devices]
        rfl
      rw [htarget]
      refine iff_of_false (fun hc => ?_) fun hc => ?_
      · simp [Past] at hc
      · rcases hc with hregs | hsetup
        · exact hregs.2.2.1 (by omega)
        · omega
    by_cases hregs : ByRegisters T (e.addr / 0x1000)
    · generalize hq : s.priv.mmuRegs (e.addr / 0x1000) = regs
      have hentry : s.busmaps (e.addr / 128) = pageEntry regs (e.addr / 128) := by
        rw [h.regs _ hb hmmu (by rwa [hpage]), hpage, hq]
      have hsum : (s.busmaps (e.addr / 128)).offset + e.addr % 128 + e.extra =
          (regs 1).toNat * 0x1000 + e.addr % 0x1000 + e.extra := by
        rw [hentry, pageEntry]
        dsimp only
        omega
      have hbeyond : Beyond T e s ↔ Granted (regs 2) e s ∧
          Past (regs 0).toNat ((regs 1).toNat * 0x1000 + e.addr % 0x1000 + e.extra) := by
        have hspare : ¬(0xE000 ≤ e.addr ∧ e.addr < 0xE080) := by omega
        simp [Beyond, hregs, ha, hspare, hq]
      rw [hbeyond, hsum, iff_true_intro ha, true_and]
      by_cases hpast : Past (regs 0).toNat
          ((regs 1).toNat * 0x1000 + e.addr % 0x1000 + e.extra)
      · obtain ⟨hattached, hid⟩ := past_attached h.devices hpast
        have hdev : (s.target e.addr).1 = (regs 0).toNat := by
          simp only [Board.target, findMap, hentry, pageEntry, hattached, Bool.false_eq_true, if_false,
            hid]
        rw [hdev, admitted_iff hrunning hentry hattached]
      · have hdev : (s.target e.addr).1 = 0 ∨ (s.target e.addr).1 = (regs 0).toNat := by
          have hid : Word.trunc 8 (regs 0).toNat = (regs 0).toNat := Word.trunc_of_lt (regs 0).isLt
          simp only [Board.target, findMap, hentry, pageEntry, hid]
          split
          · exact .inl rfl
          · exact .inr rfl
        have hnull (place : ℕ) : ¬Past 0 place := by simp [Past]
        refine iff_of_false (fun hc => ?_) fun hc => hpast hc.2
        rcases hdev with hdev | hdev <;> rw [hdev] at hc
        · exact hnull _ hc.2
        · exact hpast hc.2
    · have hentry : s.busmaps (e.addr / 128) = setupEntry (e.addr / 128) :=
        h.setup _ hb hmmu (by rwa [hpage])
      have hlow : 0xE000 ≤ e.addr := by
        by_contra hlow
        exact hregs (.inl (by omega))
      have hattached : s.unattached (setupEntry (e.addr / 128)).devid = false ∧
          Word.trunc 8 (setupEntry (e.addr / 128)).devid = (setupEntry (e.addr / 128)).devid := by
        have hall : ∀ b < 512, (Word.trunc 8 (setupEntry b).devid == INVALID_DEVID ||
            decide (6 ≤ Word.trunc 8 (setupEntry b).devid)) = false ∧
              Word.trunc 8 (setupEntry b).devid = (setupEntry b).devid := by decide +kernel
        rw [Board.unattached, h.devices]
        exact hall _ hb
      have hdev : (s.target e.addr).1 = (setupEntry (e.addr / 128)).devid := by
        simp only [Board.target, findMap, hentry, hattached.1, hattached.2, Bool.false_eq_true,
          if_false]
      have hbeyond : Beyond T e s ↔ e.addr = 0xFFFF ∧ e.extra = 1 := by simp [Beyond, hregs]
      rw [hdev, hentry, setup_past hlow ha (by omega) hextra, hbeyond]
      refine ⟨fun hc => hc.2.2, fun hlast => ⟨ha, ?_, hlast⟩⟩
      have hstops : s.readStops 0xFFFF = false := by
        have hrom : findMap s.busmaps 0xFFFF = setupEntry 511 := by
          rw [← hentry.trans (congrArg setupEntry (show e.addr / 128 = 511 by omega))]
          exact congrArg s.busmaps (show 0xFFFF / 128 = e.addr / 128 by omega)
        have hreadable : (setupEntry 511).readable = true := by decide
        have hunattached := hattached.1
        rw [show e.addr / 128 = 511 by omega] at hunattached
        rw [Board.readStops, hrom, hreadable, hunattached]
        simp
      cases e with
      | read8 pc a => cases hlast.2
      | read16 pc a => exact (congrArg s.readStops hlast.1).trans hstops
      | write8 pc a val => cases hlast.2
  · have hout : ¬Beyond T e s := by
      rintro (hregs | hsetup)
      · exact ha hregs.2.1
      · exact ha (by omega)
    exact iff_of_false (not_overruns_of_outside ha) hout

theorem RegisterWrite.perform_paged (w : RegisterWrite) (h : Paged T s) :
    ∃ t, w.perform s = .ok () t ∧ Paged (insert w.page T) t ∧ t.cpuRunning = s.cpuRunning := by
  obtain ⟨e, hrun⟩ := w.perform_run h.writable
  have hpaged := h.mmuWrite w.page (w.reg % 4) w.val
  exact ⟨_, hrun, ⟨hpaged.devices, hpaged.mmu, hpaged.regs, hpaged.setup⟩, rfl⟩

theorem RegisterWrite.runAll_paged (ws : List RegisterWrite) (h : Paged T s) :
    ∃ t, runAll RegisterWrite.perform ws s = .ok () t ∧
      Paged (T ∪ {p | ∃ w ∈ ws, w.page = p}) t ∧ t.cpuRunning = s.cpuRunning := by
  induction ws generalizing T s with
  | nil =>
    refine ⟨s, rfl, ?_, rfl⟩
    have hsame : T ∪ {p | ∃ w ∈ ([] : List RegisterWrite), w.page = p} = T := by simp
    rwa [hsame]
  | cons w ws ih =>
    obtain ⟨u, hrun, hu, hrunning⟩ := w.perform_paged h
    obtain ⟨t, hruns, ht, hrunnings⟩ := ih hu
    refine ⟨t, ?_, ?_, hrunnings.trans hrunning⟩
    · rw [runAll, run_bind_ok hrun, hruns]
    · have hsame : T ∪ {p | ∃ v ∈ w :: ws, v.page = p} =
          insert w.page T ∪ {p | ∃ v ∈ ws, v.page = p} := by
        ext1 p
        simp only [List.exists_mem_cons_iff, Set.mem_union, Set.mem_ofPred_eq, Set.mem_insert_iff]
        tauto
      rwa [hsame]

/-- The machine started and a sequence of guest writes made. -/
def rewritten (bootRom : ℕ → U8) (ws : List RegisterWrite) : M Unit := do
  started bootRom
  runAll RegisterWrite.perform ws

theorem rewritten_run (debug : Bool) (priv : Priv) (bootRom : ℕ → U8) (ws : List RegisterWrite) :
    ∃ s, rewritten bootRom ws (Board.start .fault debug priv) = .ok () s ∧
      Paged {p | ∃ w ∈ ws, w.page = p} s ∧ s.cpuRunning = true := by
  obtain ⟨u, hstart, hu, hrunning⟩ := started_run debug priv bootRom
  obtain ⟨s, hrun, hs, hsame⟩ := RegisterWrite.runAll_paged ws hu
  rw [Set.empty_union] at hs
  exact ⟨s, (run_bind_ok hstart).trans hrun, hs, hsame.trans hrunning⟩

end Exec09.Eon
