import Mathlib.Data.Set.Insert
import Exec09.Bus.Traffic
import Exec09.Machines.EonPaging

/-! # What accesses reach on eon

The registers of a page decide where its addresses lead once one of them has
been written; the pages 14 and 15 start with the mapping of the setup. The map
is known after any accesses, and so is whether one of them can reach the ROM.
-/
namespace Exec09.Eon
open Foundation Access

variable {T : Set ℕ} {s : Board Priv}

/-- The pages that the registers map. -/
def ByRegisters (T : Set ℕ) (p : ℕ) : Prop := p < 14 ∨ p ∈ T

/-- The map after register writes to the pages in `T`. -/
structure Paged (T : Set ℕ) (s : Board Priv) : Prop where
  devices : s.devices = devices
  mmu : s.busmaps 448 = ⟨1, 0, MAP_READWRITE + MAP_FIXED⟩
  regs : ∀ b < 512, b ≠ 448 → ByRegisters T (b / 32) →
    s.busmaps b = pageEntry (s.priv.mmuRegs (b / 32)) b
  setup : ∀ b < 512, b ≠ 448 → ¬ByRegisters T (b / 32) → s.busmaps b = setupEntry b

theorem AfterSetup.paged (h : AfterSetup s) : Paged ∅ s where
  devices := h.devices
  mmu := h.busmaps _ (by decide)
  regs := by
    rintro b hb - (hlow | hnone)
    · exact h.coherent.entry (by omega)
    · exact absurd hnone (Set.notMem_empty _)
  setup := fun b hb _ _ => h.busmaps b hb

namespace Paged

theorem free (h : Paged T s) {b : ℕ} (hb : b < 512) (hne : b ≠ 448) :
    (s.busmaps b).fixed = false := by
  have hsetup : ∀ b < 512, b ≠ 448 → (setupEntry b).fixed = false := by decide +kernel
  by_cases hpage : ByRegisters T (b / 32)
  · rw [h.regs b hb hne hpage, pageEntry_fixed]
  · rw [h.setup b hb hne hpage]
    exact hsetup b hb hne

theorem writable (h : Paged T s) : Writable s := ⟨h.devices, h.mmu, fun _ hb hne => h.free hb hne⟩

/-- A register write makes its page one that the registers map. -/
theorem mmuWrite (h : Paged T s) (p r : ℕ) (val : U8) :
    Paged (insert p T) ((setReg p r val s).mapped
      (pageCall p ((setReg p r val s).priv.mmuRegs p))) where
  devices := h.devices
  mmu := by
    have hfixed : (s.busmaps 448).fixed = true := by rw [h.mmu]; rfl
    rw [mapped_pageCall]
    exact (if_neg fun hc => by
      rw [show (setReg p r val s).busmaps 448 = s.busmaps 448 from rfl, hfixed] at hc
      cases hc.2).trans h.mmu
  regs := by
    intro b hb hne hpage
    rw [mapped_pageCall]
    by_cases hbp : b / 32 = p
    · rw [if_pos ⟨hbp, h.free hb hne⟩, hbp]
      rfl
    · have hother : ByRegisters T (b / 32) := hpage.imp_right fun hin =>
        Set.mem_of_mem_insert_of_ne hin hbp
      have hregs : (setReg p r val s).priv.mmuRegs (b / 32) = s.priv.mmuRegs (b / 32) := by
        ext1 i
        simp [setReg, hbp]
      rw [if_neg fun hc => hbp hc.1]
      exact (h.regs b hb hne hother).trans (congrArg (pageEntry · b) hregs.symm)
  setup := by
    intro b hb hne hpage
    have hbp : b / 32 ≠ p := fun hbp => hpage (.inr (hbp ▸ Set.mem_insert p T))
    rw [mapped_pageCall, if_neg fun hc => hbp hc.1]
    exact h.setup b hb hne fun hin => hpage (hin.imp_right (Set.mem_insert_of_mem p))

end Paged

/-! ## The ROM -/

/-- The registers of the page map the ROM there so that it can be written. -/
def RomSelected (addr : ℕ) (s : Board Priv) : Prop :=
  s.priv.mmuRegs (addr / 0x1000) 0 = 3 ∧ s.priv.mmuRegs (addr / 0x1000) 2 &&& 2 ≠ 0 ∧
    ¬(0xE000 ≤ addr ∧ addr < 0xE080)

instance (addr : ℕ) (s : Board Priv) : Decidable (RomSelected addr s) :=
  inferInstanceAs (Decidable (_ ∧ _ ∧ _))

def RomSpared : CpuAccess → Board Priv → Prop
  | .write8 _ addr _, s => ¬RomSelected addr s
  | _, _ => True

structure RomHeld (image : ℕ → U8) (s : Board Priv) : Prop where
  paged : ∃ T, Paged T s
  running : s.cpuRunning = true
  rom : s.mem 3 = image

variable {image : ℕ → U8}

theorem RomHeld.frame (h : RomHeld image s) {t : Board Priv} (hdevs : t.devices = s.devices)
    (hmaps : t.busmaps = s.busmaps) (hregs : t.priv.mmuRegs = s.priv.mmuRegs)
    (hrunning : t.cpuRunning = s.cpuRunning) (hmem : t.mem 3 = s.mem 3) : RomHeld image t where
  paged := by
    obtain ⟨T, hT⟩ := h.paged
    refine ⟨T, hdevs.trans hT.devices, ?_, ?_, ?_⟩
    · rw [hmaps]
      exact hT.mmu
    · rw [hmaps, hregs]
      exact hT.regs
    · rw [hmaps]
      exact hT.setup
  running := hrunning.trans h.running
  rom := hmem.trans h.rom

instance : Untraced (RomHeld image) where
  traced _ _ _ h := h.frame rfl rfl rfl rfl rfl

/-- A write that is let through does not get to the ROM. -/
theorem RomHeld.target_ne (h : RomHeld image s) {addr : ℕ} (ha : addr < 0x10000)
    (hw : (findMap s.busmaps addr).writable = true) (hspared : ¬RomSelected addr s) :
    (s.target addr).1 ≠ 3 := by
  obtain ⟨T, hT⟩ := h.paged
  have hsetup : ∀ b < 512, (setupEntry b).writable = true → Word.trunc 8 (setupEntry b).devid ≠ 3 := by
    decide +kernel
  have hb : addr / 128 < 512 := by omega
  have hdev : Word.trunc 8 (findMap s.busmaps addr).devid ≠ 3 := by
    rw [findMap] at hw ⊢
    by_cases hmmu : addr / 128 = 448
    · rw [hmmu, hT.mmu]
      decide
    by_cases hpage : ByRegisters T (addr / 128 / 32)
    · have hp : addr / 128 / 32 = addr / 0x1000 := Nat.div_div_eq_div_mul addr 128 32
      rw [hT.regs _ hb hmmu hpage, hp] at hw ⊢
      intro hrom
      have hbit : ∀ x : U8, (x.toNat &&& MAP_READWRITE) &&& MAP_WRITABLE ≠ 0 → x &&& 2 ≠ 0 := by decide
      have hthree : ∀ x : U8, Word.trunc 8 x.toNat = 3 → x = 3 := by decide
      exact hspared ⟨hthree _ hrom, hbit _ (bne_iff_ne.mp hw), by omega⟩
    · rw [hT.setup _ hb hmmu hpage] at hw ⊢
      exact hsetup _ hb hw
  simp only [Board.target]
  split
  · decide
  · exact hdev

theorem consoleRead_keeps (addr : ℕ) : Keeps (RomHeld image) (consoleRead addr) := by
  refine ⟨fun s h => ?_⟩
  rcases addr with _ | _ | _ | addr
  · exact h
  · exact h
  · cases hinput : s.priv.input with
    | nil =>
      have hrun : consoleRead 2 s = .ok 0xff s := by
        rw [consoleRead, run_bind_ok run_get, hinput]
        rfl
      exact hrun ▸ h
    | cons c rest =>
      have hrun : consoleRead 2 s =
          .ok c { s with priv := { s.priv with input := rest } } := by
        rw [consoleRead, run_bind_ok run_get, hinput]
        rfl
      exact hrun ▸ h.frame rfl rfl rfl rfl rfl
  · exact h

theorem read_keeps (pc dev offset : ℕ) : Keeps (RomHeld image) (hardware.read pc dev offset) := by
  have hram : Keeps (RomHeld image) (ramRead dev offset) := by
    rw [ramRead]
    infer_instance
  have hmmu : Keeps (RomHeld image) (mmuRead offset) := by
    rw [mmuRead]
    infer_instance
  have hconsole : Keeps (RomHeld image) (consoleRead offset) := consoleRead_keeps offset
  refine Keeps.get.seq fun s => ?_
  generalize (s.devices.getD dev ⟨.null, 0⟩).cls = cls
  cases cls <;> infer_instance

theorem consoleWrite_keeps (addr : ℕ) (val : U8) : Keeps (RomHeld image) (consoleWrite addr val) := by
  rcases addr with _ | _ | addr
  · exact ⟨fun s h => h.frame rfl rfl rfl rfl rfl⟩
  · exact Keeps.throw _
  · exact Keeps.pure _

theorem mmuWrite_keeps (addr : ℕ) (val : U8) : Keeps (RomHeld image) (mmuWrite addr val) := by
  refine ⟨fun s h => ?_⟩
  obtain ⟨T, hT⟩ := h.paged
  rw [mmuWrite_run]
  exact ⟨⟨_, hT.mmuWrite (addr / 4 % 16) (addr % 4) val⟩, h.running, h.rom⟩

theorem diskWrite_keeps (addr : ℕ) (val : U8) : Keeps (RomHeld image) (diskWrite addr val) :=
  ⟨fun _ h => h.frame rfl rfl rfl rfl rfl⟩

theorem ramWrite_keeps {dev : ℕ} (hdev : dev ≠ 3) (offset : ℕ) (val : U8) :
    Keeps (RomHeld image) (ramWrite dev offset val) := by
  have hstore : Keeps (RomHeld image) (modify (Board.setMem dev offset val) : M Unit) := by
    refine ⟨fun s h => h.frame rfl rfl rfl rfl ?_⟩
    ext1 a
    simp [Board.setMem, finalState, hdev.symm]
  rw [ramWrite]
  infer_instance

theorem write_keeps {dev : ℕ} (hdev : dev ≠ 3) (pc offset : ℕ) (val : U8) :
    Keeps (RomHeld image) (hardware.write pc dev offset val) := by
  have hram : Keeps (RomHeld image) (ramWrite dev offset val) := ramWrite_keeps hdev offset val
  have hconsole : Keeps (RomHeld image) (consoleWrite offset val) := consoleWrite_keeps offset val
  have hmmu : Keeps (RomHeld image) (mmuWrite offset val) := mmuWrite_keeps offset val
  have hdisk : Keeps (RomHeld image) (diskWrite offset val) := diskWrite_keeps offset val
  refine Keeps.get.seq fun s => ?_
  generalize (s.devices.getD dev ⟨.null, 0⟩).cls = cls
  cases cls <;> infer_instance

/-- The machine initialised and the CPU started. -/
def started (bootRom : ℕ → U8) : M Unit := do
  init bootRom
  modify fun s => { s with cpuRunning := true }

theorem started_run (debug : Bool) (priv : Priv) (bootRom : ℕ → U8) :
    ∃ s, started bootRom (Board.start .fault debug priv) = .ok () s ∧ Paged ∅ s ∧
      s.cpuRunning = true := by
  obtain ⟨_, u, hinit, hu⟩ := (init_afterSetup bootRom).total
    (s := Board.start .fault debug priv) rfl
  have hpaged := hu.paged
  exact ⟨{ u with cpuRunning := true }, run_bind_ok hinit,
    ⟨hpaged.devices, hpaged.mmu, hpaged.regs, hpaged.setup⟩, rfl⟩

theorem romKept_of_spared (h : Paged T s) (hrunning : s.cpuRunning = true) {es : List CpuAccess}
    (hes : Along (CpuAccess.perform hardware) RomSpared es s) : RomKept hardware es s := by
  have hheld : RomHeld (s.mem 3) s := ⟨⟨T, h⟩, hrunning, rfl⟩
  refine romKept_of_along read_keeps ?_ hheld hes ?_
  · rintro pc addr val t ht hspared ⟨haddr, hallowed⟩ log m
    have hwritable : (findMap t.busmaps addr).writable = true :=
      hallowed.resolve_left (by simp [ht.running])
    have hdev := ht.target_ne haddr hwritable hspared
    exact (write_keeps hdev pc _ val).keeps _ (Untraced.traced log m t ht)
  · intro t ht dev hrom
    have hdev : dev = 3 := by
      rw [h.devices] at hrom
      rcases dev with _ | _ | _ | _ | _ | _ | dev <;> simp [devices] at hrom ⊢
    rw [hdev, ht.rom]

end Exec09.Eon
