import Exec09.Bus.Overrun
import Exec09.Machines.WpcReach

/-! # Buffer bounds on wpc

The ROM window pages the RAM, which is much smaller than the ROM. Besides, the
last byte of the RAM and the last byte of the ROM are not followed by another
one of the same device.
-/
namespace Exec09.Wpc
open Foundation Access

variable {image : ℕ → U8} {r : Regs} {s : Board Priv}

theorem setPriv_stops (f : Priv → Priv) : StopsFor (fun x : Stop => ¬x.Overrun) (setPriv f) :=
  StopsFor.modify _

theorem setAsic_stops (f : Asic → Asic) : StopsFor (fun x : Stop => ¬x.Overrun) (setAsic f) :=
  StopsFor.modify _

theorem readRegister_stops (reg : ℕ) :
    StopsFor (fun x : Stop => ¬x.Overrun) (readRegister reg) := by
  have hcolumn (col : ℤ) : StopsFor (fun x : Stop => ¬x.Overrun) (wpcReadSwitchColumn col) := by
    rw [wpcReadSwitchColumn]
    infer_instance
  have hset := setPriv_stops
  have hconsole : StopsFor (fun x : Stop => ¬x.Overrun) wpcConsoleRead := by
    rw [wpcConsoleRead]
    refine StopsFor.get.seq fun s => ?_
    cases s.priv.input <;> infer_instance
  unfold readRegister
  refine StopsFor.get.seq fun s => ?_
  dsimp only
  split <;> infer_instance

theorem writeRegister_stops (reg : ℕ) (val : U8) :
    StopsFor (fun x : Stop => ¬x.Overrun) (writeRegister reg val) := by
  have hpriv := setPriv_stops
  have hasic := setAsic_stops
  have hdmd (map : ℕ) : StopsFor (fun x : Stop => ¬x.Overrun) (wpcSetDmdPage map val) := by
    rw [wpcSetDmdPage]
    infer_instance
  have hrom : StopsFor (fun x : Stop => ¬x.Overrun) (wpcSetRomPage val) := mapBus_stops _
  have hram : StopsFor (fun x : Stop => ¬x.Overrun) wpcUpdateRam := by
    rw [wpcUpdateRam]
    infer_instance
  have hlamp : StopsFor (fun x : Stop => ¬x.Overrun) (lampRow val) := by
    rw [lampRow]
    infer_instance
  have hsend : StopsFor (fun x : Stop => ¬x.Overrun) sendVisibles := by
    rw [sendVisibles]
    infer_instance
  have hvisible : StopsFor (fun x : Stop => ¬x.Overrun) (wpcDmdSetVisible val) := by
    rw [wpcDmdSetVisible]
    refine StopsFor.get.seq fun s => ?_
    dsimp only
    split
    · infer_instance
    · split <;> infer_instance
  have hconsole : StopsFor (fun x : Stop => ¬x.Overrun) (wpcConsoleWrite val) := StopsFor.modify _
  unfold writeRegister
  split <;> infer_instance

theorem hardware_flat : Flat (RomHeld image r) hardware devices where
  devices := fun _ h => h.paged.devices
  read := by
    intro pc dev offset s h hbuffer
    simp only [hardware]
    rw [run_bind_ok run_get, h.paged.devices]
    rcases hbuffer with hcls | hcls <;> rw [hcls]
  write := by
    intro pc dev offset val s h hbuffer
    simp only [hardware]
    rw [run_bind_ok run_get, h.paged.devices]
    rcases hbuffer with hcls | hcls <;> rw [hcls]
  readOther := by
    intro pc dev offset s h hbuffer
    simp only [hardware]
    rw [run_bind_ok run_get, h.paged.devices]
    rw [Buffered] at hbuffer
    generalize (devices.getD dev ⟨.null, 0⟩).cls = cls at hbuffer
    have hasic : StopsFor (fun x : Stop => ¬x.Overrun) (wpcAsicRead offset) := readRegister_stops _
    cases cls <;> first | exact not_overran | simp at hbuffer
  writeOther := by
    intro pc dev offset val s h hbuffer
    simp only [hardware]
    rw [run_bind_ok run_get, h.paged.devices]
    rw [Buffered] at hbuffer
    generalize (devices.getD dev ⟨.null, 0⟩).cls = cls at hbuffer
    have hasic : StopsFor (fun x : Stop => ¬x.Overrun) (wpcAsicWrite offset val) :=
      writeRegister_stops _ _
    cases cls <;> first | exact not_overran | simp at hbuffer
  keeps := read_keeps
  null := by simp [Buffered, Wpc.devices]

/-- The last byte of a read lies behind the RAM, in the window that the ROM is paged to or at the
end of the RAM, or it is the byte behind the ROM. -/
def Regs.Beyond (e : CpuAccess) (r : Regs) : Prop :=
  match e with
  | .write8 _ _ _ => False
  | _ => (∃ v, r.bank = some v ∧ 0x4000 ≤ e.addr ∧ e.addr < 0x8000 ∧
      0x2000 ≤ v.toNat * 0x4000 + (e.addr - 0x4000) + e.extra) ∨
    (e.extra = 1 ∧ (e.addr = 0x1FFF ∨ e.addr = 0xFFFF))

theorem Regs.Beyond.places {e : CpuAccess} (h : r.Beyond e) :
    (∃ v, r.bank = some v ∧ 0x4000 ≤ e.addr ∧ e.addr < 0x8000 ∧
      0x2000 ≤ v.toNat * 0x4000 + (e.addr - 0x4000) + e.extra) ∨
    (e.extra = 1 ∧ (e.addr = 0x1FFF ∨ e.addr = 0xFFFF)) := by
  cases e with
  | read8 pc a => exact h
  | read16 pc a => exact h
  | write8 pc a val => exact h.elim

theorem behind_iff {dev place : ℕ} : Flat.Behind devices dev place ↔
    (dev = 2 ∧ 0x2000 ≤ place) ∨ (dev = 3 ∧ 0x100000 ≤ place) ∨ (dev = 4 ∧ 0x2000 ≤ place) := by
  rcases dev with _ | _ | _ | _ | _ | dev <;> simp [Flat.Behind, Buffered, devices]

theorem Regs.entry_behind {addr extra : ℕ} (ha : addr < 0x10000) (hextra : extra ≤ 1) (r : Regs) :
    Flat.Behind devices (r.entry (addr / 128)).devid
        ((r.entry (addr / 128)).offset + addr % 128 + extra) ↔
      (∃ v, r.bank = some v ∧ 0x4000 ≤ addr ∧ addr < 0x8000 ∧
        0x2000 ≤ v.toNat * 0x4000 + (addr - 0x4000) + extra) ∨
      (extra = 1 ∧ (addr = 0x1FFF ∨ addr = 0xFFFF)) := by
  have hdmd {half b : ℕ} {page : Option U8} (hhalf : half < 2) (hb : b < 4) :
      ¬Flat.Behind devices (dmdEntry half page b).devid
        ((dmdEntry half page b).offset + addr % 128 + extra) := by
    rw [behind_iff]
    cases page with
    | none =>
      simp only [dmdEntry]
      omega
    | some v =>
      have hv : v.toNat < 2 ^ 8 := v.isLt
      simp only [dmdEntry]
      omega
  have hnone (hout : ¬(0x4000 ≤ addr ∧ addr < 0x8000)) : ¬∃ v, r.bank = some v ∧ 0x4000 ≤ addr ∧
      addr < 0x8000 ∧ 0x2000 ≤ v.toNat * 0x4000 + (addr - 0x4000) + extra :=
    fun ⟨_, _, hlow, hhigh, _⟩ => hout ⟨hlow, hhigh⟩
  rw [entry]
  split_ifs
  · rw [behind_iff, ramEntry, or_iff_right (hnone (by omega))]
    dsimp only
    omega
  · rw [behind_iff, or_iff_right (hnone (by omega))]
    dsimp only [INVALID_DEVID]
    omega
  · rw [or_iff_right (hnone (by omega))]
    exact iff_of_false (hdmd (by decide) (by omega)) (by omega)
  · rw [or_iff_right (hnone (by omega))]
    exact iff_of_false (hdmd (by decide) (by omega)) (by omega)
  · rw [behind_iff, or_iff_right (hnone (by omega))]
    dsimp only
    omega
  · have hinside : ¬(extra = 1 ∧ (addr = 0x1FFF ∨ addr = 0xFFFF)) := by omega
    rw [behind_iff, or_iff_left hinside]
    cases hbank : r.bank with
    | none =>
      simp only [bankEntry]
      refine iff_of_false (by omega) ?_
      rintro ⟨v, hv, -⟩
      cases hv
    | some v =>
      simp only [bankEntry, Option.some.injEq, exists_eq_left', true_and]
      omega
  · rw [behind_iff, or_iff_right (hnone (by omega))]
    dsimp only
    omega

theorem Regs.entry_devid (b : ℕ) (r : Regs) :
    (r.entry b).devid < 5 ∨ (r.entry b).devid = INVALID_DEVID := by
  have hdmd (half b : ℕ) (page : Option U8) : (dmdEntry half page b).devid < 5 := by
    cases page <;> simp [dmdEntry]
  have hbank (b : ℕ) : (bankEntry r.bank b).devid < 5 := by
    cases r.bank <;> simp [bankEntry]
  rw [entry]
  split_ifs
  · exact .inl (by simp [ramEntry])
  · exact .inr rfl
  · exact .inl (hdmd _ _ _)
  · exact .inl (hdmd _ _ _)
  · exact .inl (by simp)
  · exact .inl (hbank _)
  · exact .inl (by simp)

theorem Regs.entry_offset {b : ℕ} (hb : b < 512) (r : Regs) : (r.entry b).offset < 2 ^ 32 := by
  have hdmd {half b : ℕ} (hhalf : half < 2) (hb : b < 512) (page : Option U8) :
      (dmdEntry half page b).offset < 2 ^ 32 := by
    cases page with
    | none =>
      simp only [dmdEntry]
      omega
    | some v =>
      have hv : v.toNat < 2 ^ 8 := v.isLt
      simp only [dmdEntry]
      omega
  have hbank (hb : b - 128 < 512) : (bankEntry r.bank (b - 128)).offset < 2 ^ 32 := by
    cases r.bank with
    | none =>
      simp only [bankEntry]
      omega
    | some v =>
      have hv : v.toNat < 2 ^ 8 := v.isLt
      simp only [bankEntry]
      omega
  rw [entry]
  split_ifs
  · simp only [ramEntry]
    omega
  · simp
  · exact hdmd (by decide) (by omega) _
  · exact hdmd (by decide) (by omega) _
  · dsimp only
    omega
  · exact hbank (by omega)
  · dsimp only
    omega

theorem Regs.entry_readable {b : ℕ} {r : Regs} (hdev : (r.entry b).devid < 5) :
    (r.entry b).readable = true := by
  have hreadable : (MAP_READABLE &&& MAP_READABLE != 0) = true := by decide
  have hwritable : (MAP_READWRITE &&& MAP_READABLE != 0) = true := by decide
  have hnone : ¬INVALID_DEVID < 5 := by decide
  have hdmd (half b : ℕ) (page : Option U8) : (dmdEntry half page b).readable = true := by
    cases page <;> exact hwritable
  have hbank (b : ℕ) : (bankEntry r.bank b).readable = true := by
    cases r.bank <;> exact hreadable
  rw [entry] at hdev ⊢
  split_ifs at hdev ⊢
  · rw [ramEntry, BusEntry.readable]
    dsimp only
    split <;> assumption
  · exact absurd hdev hnone
  · exact hdmd _ _ _
  · exact hdmd _ _ _
  · exact hwritable
  · exact hbank _
  · exact hreadable

theorem Regs.entry_window {addr : ℕ} (hlow : 0x4000 ≤ addr) (hhigh : addr < 0x8000) (r : Regs) :
    (r.entry (addr / 128)).writable = false := by
  have hreadable : (MAP_READABLE &&& MAP_WRITABLE != 0) = false := by decide
  rw [entry, if_neg (by omega), if_neg (by omega), if_neg (by omega), if_neg (by omega),
    if_neg (by omega), if_pos (by omega)]
  cases r.bank <;> exact hreadable

/-- On wpc an access overruns a buffer exactly if it is a read that the registers put there. -/
theorem Paged.overruns_iff (h : Paged r s) (hrunning : s.cpuRunning = true) (e : CpuAccess) :
    Overruns hardware e s ↔ r.Beyond e := by
  have hheld : RomHeld (s.mem 3) r s := ⟨h, hrunning, rfl⟩
  by_cases ha : e.addr < 0x10000
  · have hb : e.addr / 128 < 512 := by omega
    have hoffset := r.entry_offset hb
    have hentry : findMap s.busmaps e.addr = r.entry (e.addr / 128) := h.maps _ hb
    have hplace : (s.target e.addr).2 = (r.entry (e.addr / 128)).offset + e.addr % 128 := by
      simp only [Board.target, hentry]
      exact Word.trunc_of_lt (by omega)
    have hbehind := r.entry_behind ha e.extra_le
    rw [hardware_flat.overruns_iff hheld e (by omega), hplace, iff_true_intro ha, true_and]
    rcases r.entry_devid (e.addr / 128) with hdev | hdev
    · have hstops : s.readStops e.addr = false := by
        rw [Board.readStops, hentry, h.attached hdev, Regs.entry_readable hdev]
        simp
      rw [h.target_attached ha hdev, hbehind]
      cases e with
      | read8 pc a => exact and_iff_right hstops
      | read16 pc a => exact and_iff_right hstops
      | write8 pc a val =>
        refine iff_of_false ?_ id
        rintro ⟨hadmitted, ⟨v, -, hlow, hhigh, -⟩ | ⟨hextra, -⟩⟩
        · have hwritable := hadmitted.resolve_left (by simp [hrunning])
          have hentry : findMap s.busmaps a = r.entry (a / 128) := hentry
          rw [hentry] at hwritable
          exact absurd ((r.entry_window hlow hhigh).symm.trans hwritable) (by decide)
        · cases hextra
    · have htarget : (s.target e.addr).1 = 0 := by
        have hunattached : s.unattached INVALID_DEVID = true := rfl
        simp [Board.target, hentry, hdev, hunattached]
      have hnull : ¬Buffered Wpc.devices 0 := by simp [Buffered, Wpc.devices]
      rw [htarget]
      refine iff_of_false (fun hc => hnull hc.2.1) fun hc => ?_
      rw [hdev] at hbehind
      have hbuffered := (hbehind.mpr hc.places).1
      simp [Buffered, Wpc.devices, INVALID_DEVID] at hbuffered
  · refine iff_of_false (not_overruns_of_outside ha) fun hc => ?_
    rcases hc.places with ⟨v, -, -, hhigh, -⟩ | ⟨-, hlast⟩ <;> omega

/-! ## Writes to the paging registers -/

inductive PageRegister
  | romBank
  | dmdLow
  | dmdHigh

def PageRegister.addr : PageRegister → ℕ
  | romBank => 0x3FFC
  | dmdLow => 0x3FBE
  | dmdHigh => 0x3FBC

/-- A guest write to one of the paging registers. -/
structure PageWrite where
  pc : ℕ
  reg : PageRegister
  val : U8

namespace PageWrite

def perform (w : PageWrite) : M Unit := cpuWrite8 hardware w.pc w.reg.addr w.val

def apply (w : PageWrite) (r : Regs) : Regs := r.write w.reg.addr w.val

theorem register_returns (w : PageWrite) (s : Board Priv) :
    ∃ t, writeRegister w.reg.addr w.val s = .ok () t := by
  cases hreg : w.reg with
  | romBank => exact ⟨_, (run_bind_ok (setAsic_run _ s)).trans (wpcSetRomPage_run w.val _)⟩
  | dmdLow =>
    obtain ⟨a, hrun, -⟩ := wpcSetDmdPage_run (show 0 < 2 by decide) w.val s
    exact ⟨_, hrun⟩
  | dmdHigh =>
    obtain ⟨a, hrun, -⟩ := wpcSetDmdPage_run (show 1 < 2 by decide) w.val s
    exact ⟨_, hrun⟩

/-- The write reaches the register. -/
theorem perform_run (w : PageWrite) (h : Paged r s) (hrunning : s.cpuRunning = true) :
    ∃ t, w.perform s = .ok () t ∧ Paged (w.apply r) t ∧ t.cpuRunning = true := by
  have hheld : RomHeld (s.mem 3) r s := ⟨h, hrunning, rfl⟩
  have haddr : 0x3C00 ≤ w.reg.addr ∧ w.reg.addr < 0x4000 := by
    cases w.reg <;> decide
  have hspared : ¬r.RomSelected w.reg.addr := by
    rintro (⟨-, hhigh, -⟩ | ⟨-, hhigh, -⟩) <;> omega
  have hentry : findMap s.busmaps w.reg.addr =
      ⟨1, 128 * (w.reg.addr / 128 - 120), MAP_READWRITE⟩ :=
    (h.maps _ (by omega)).trans (Regs.entry_asic (by omega) (by omega) r)
  have hresolve : resolve s.busmaps w.reg.addr = ⟨1, w.reg.addr - 0x3C00, MAP_READWRITE⟩ := by
    have hplace : 128 * (w.reg.addr / 128 - 120) + w.reg.addr % 128 = w.reg.addr - 0x3C00 := by omega
    rw [resolve, hentry, BusEntry.resolution]
    dsimp only
    rw [hplace, Word.trunc_of_lt (by omega)]
  have hattached : s.unattached 1 = false := h.attached (by decide)
  have hwritable : MAP_READWRITE &&& MAP_WRITABLE ≠ 0 := by decide
  obtain ⟨e, hcpu⟩ := cpuWrite8_resolved hardware w.pc (by omega) w.val hresolve hattached
    (.inr hwritable)
  obtain ⟨t, hreg⟩ := w.register_returns s
  have hwrite : hardware.write w.pc 1 (w.reg.addr - 0x3C00) w.val s = .ok () t := by
    have hcls : (s.devices.getD 1 ⟨.null, 0⟩).cls = .wpcAsic := by
      rw [h.devices]
      rfl
    simp only [hardware]
    rw [run_bind_ok run_get, hcls]
    exact (congrArg (writeRegister · w.val s) (Nat.sub_add_cancel haddr.1)).trans hreg
  have hrun : w.perform s = .ok () (t.record e) := hcpu.trans (run_bind_ok hwrite)
  have hend := hheld.write w.pc w.val hspared
  rw [show cpuWrite8 hardware w.pc w.reg.addr w.val s = .ok () (t.record e) from hrun] at hend
  exact ⟨_, hrun, hend.paged, hend.running⟩

theorem runAll_paged (ws : List PageWrite) (h : Paged r s) (hrunning : s.cpuRunning = true) :
    ∃ t, runAll perform ws s = .ok () t ∧ Paged (ws.foldl (fun r w => w.apply r) r) t ∧
      t.cpuRunning = true := by
  induction ws generalizing r s with
  | nil => exact ⟨s, rfl, h, hrunning⟩
  | cons w ws ih =>
    obtain ⟨u, hrun, hu, hurunning⟩ := w.perform_run h hrunning
    obtain ⟨t, hruns, ht⟩ := ih hu hurunning
    exact ⟨t, by rw [runAll, run_bind_ok hrun, hruns], ht⟩

end PageWrite

/-- The registers after a sequence of writes. -/
def regsAfter (ws : List PageWrite) : Regs := ws.foldl (fun r w => w.apply r) Regs.start

/-- The machine started and a sequence of guest writes made. -/
def repaged (bootRom : ℕ → U8) (ws : List PageWrite) : M Unit := do
  started bootRom
  runAll PageWrite.perform ws

theorem repaged_run (debug : Bool) (priv : Priv) (bootRom : ℕ → U8) (ws : List PageWrite) :
    ∃ s, repaged bootRom ws (Board.start .wpcFault debug priv) = .ok () s ∧
      Paged (regsAfter ws) s ∧ s.cpuRunning = true := by
  obtain ⟨u, hstart, hu, hrunning⟩ := started_run debug priv bootRom
  obtain ⟨s, hrun, hs⟩ := PageWrite.runAll_paged ws hu hrunning
  exact ⟨s, (run_bind_ok hstart).trans hrun, hs⟩

end Exec09.Wpc
