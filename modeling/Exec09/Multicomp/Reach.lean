import Exec09.Bus.Traffic
import Exec09.Multicomp.Translation

/-! # What accesses reach on multicomp09

The map and the slots of the expander follow the registers of the mapper
through any accesses. The map keeps writes from the ROM; the slots, which pass
every write on, lead to it as long as it is enabled.
-/
namespace Exec09.Multicomp
open Foundation Access

variable {s : Board Priv} {image : ℕ → U8}

theorem Mapped.frame (h : Mapped s) {t : Board Priv} (hdevs : t.devices = s.devices)
    (hmaps : t.busmaps = s.busmaps) (hmapper : t.priv.mapper = s.priv.mapper)
    (hexpander : t.priv.expander = s.priv.expander) : Mapped t where
  devices := hdevs.trans h.devices
  free := by
    rw [hmaps]
    exact h.free
  maps := by
    rw [hmaps, hmapper]
    exact h.maps
  slots := by
    rw [hmapper, hexpander]
    exact h.slots

/-! ## Invariants of the devices -/

/-- `I` holds whatever is read. -/
class Observed (I : Board Priv → Prop) : Prop extends Untraced I where
  console : ∀ f s, I s → I (setConsole f s)
  sdRead : ∀ addr s, I s → I (setSd (s.priv.sd.read addr).2 s)

/-- `I` holds whatever the devices do, apart from a write to the RAM or the ROM. -/
class Enduring (I : Board Priv → Prop) : Prop extends Untraced I where
  console : ∀ f s, I s → I (setConsole f s)
  sdRead : ∀ addr s, I s → I (setSd (s.priv.sd.read addr).2 s)
  sdWrite : ∀ addr val s sd, I s → s.priv.sd.write addr val = .ok sd → I (setSd sd s)
  remap : ∀ op val s, I s → I (remapped op val s)

section Observed
variable {I : Board Priv → Prop} [Observed I]

instance setConsole_keeps (f : Console → Console) : Keeps I (modify (setConsole f) : M Unit) :=
  ⟨fun s h => Observed.console f s h⟩

omit [Observed I] in
instance throughExpander_keeps (dev offset : ℕ) : Keeps I (throughExpander dev offset) := by
  have htarget (io : IoExpand) : Keeps I (io.target offset : M (ℕ × ℕ)) := by
    rw [IoExpand.target]
    cases io.ios (offset / 8) <;> infer_instance
  rw [throughExpander]
  infer_instance

theorem sdmapperRead_keeps {read8 : ℕ → M U8} (h : ∀ a, Keeps I (read8 a)) (pc addr : ℕ) :
    Keeps I (sdmapperRead read8 pc addr) := by
  refine ⟨fun s hs => ?_⟩
  rw [sdmapperRead, run_bind_ok run_get]
  split
  · exact Observed.sdRead 0 s hs
  · exact Observed.sdRead 1 s hs
  · exact hs
  · have hmessage : Keeps I (do
        let _ ← read8 (usub pc 3)
        return 0x42 : M U8) := inferInstance
    exact hmessage.keeps s hs

theorem classRead_keeps {read8 : ℕ → M U8} (h : ∀ a, Keeps I (read8 a))
    (pc dev offset : ℕ) : Keeps I (classRead read8 pc dev offset) := by
  have hram : Keeps I (ramRead dev offset) := by
    rw [ramRead]
    infer_instance
  have hsd := sdmapperRead_keeps h pc offset
  rw [classRead]
  refine Keeps.get.seq fun s => ?_
  generalize (s.devices.getD dev ⟨.null, 0⟩).cls = cls
  cases cls <;> infer_instance

theorem deviceRead_keeps {read8 : ℕ → M U8} (h : ∀ a, Keeps I (read8 a))
    (pc dev offset : ℕ) : Keeps I (deviceRead read8 pc dev offset) := by
  have hclass := classRead_keeps h pc
  rw [deviceRead]
  infer_instance

theorem read_keeps (pc dev offset : ℕ) : Keeps I (hardware.read pc dev offset) := by
  have hnested (pc dev offset : ℕ) : Keeps I (nestedHardware.read pc dev offset) :=
    deviceRead_keeps (fun _ => Keeps.throw _) pc dev offset
  exact deviceRead_keeps (cpuRead8_keeps (hnested pc)) pc dev offset

end Observed

section Enduring
variable {I : Board Priv → Prop} [Enduring I]

instance : Observed I := ⟨Enduring.console, Enduring.sdRead⟩

instance sdmapperRemap_keeps (op : ℕ) (val : U8) : Keeps I (sdmapperRemap op val) := by
  refine ⟨fun s h => ?_⟩
  rw [sdmapperRemap_run]
  exact Enduring.remap op val s h

theorem sdmapperWrite_keeps (addr : ℕ) (val : U8) : Keeps I (sdmapperWrite addr val) := by
  refine ⟨fun s hs => ?_⟩
  rw [sdmapperWrite, run_bind_ok run_get]
  split
  · exact Observed.console _ s hs
  · have hremap : Keeps I (if val &&& 0x10 = 0 then sdmapperRemap 2 val else pure () : M Unit) :=
      inferInstance
    exact hremap.keeps s hs
  · exact (sdmapperRemap_keeps 1 val).keeps s hs
  · cases hwrite : s.priv.sd.write addr val with
    | ok sd => exact Enduring.sdWrite addr val s sd hs hwrite
    | error e => exact hs

theorem classWrite_keeps {dev offset : ℕ} {val : U8} (hram : Keeps I (ramWrite dev offset val)) :
    Keeps I (classWrite dev offset val) := by
  have hsd : Keeps I (sdmapperWrite offset val) := sdmapperWrite_keeps offset val
  rw [classWrite]
  refine Keeps.get.seq fun s => ?_
  generalize (s.devices.getD dev ⟨.null, 0⟩).cls = cls
  cases cls <;> infer_instance

end Enduring

/-! ## The ROM -/

/-- The slot of the address passes accesses on to the ROM. -/
def RomSelected (addr : ℕ) (s : Board Priv) : Prop :=
  s.priv.mapper.romdis = false ∧ 0xFF80 ≤ addr ∧ ¬(0xFFD0 ≤ addr ∧ addr ≤ 0xFFDF)

instance (addr : ℕ) (s : Board Priv) : Decidable (RomSelected addr s) :=
  inferInstanceAs (Decidable (_ ∧ _ ∧ _))

def RomSpared : CpuAccess → Board Priv → Prop
  | .write8 _ addr _, s => ¬RomSelected addr s
  | _, _ => True

structure RomHeld (image : ℕ → U8) (s : Board Priv) : Prop where
  mapped : Mapped s
  running : s.cpuRunning = true
  rom : s.mem 2 = image

theorem RomHeld.frame (h : RomHeld image s) {t : Board Priv} (hdevs : t.devices = s.devices)
    (hmaps : t.busmaps = s.busmaps) (hmapper : t.priv.mapper = s.priv.mapper)
    (hexpander : t.priv.expander = s.priv.expander) (hrunning : t.cpuRunning = s.cpuRunning)
    (hmem : t.mem 2 = s.mem 2) : RomHeld image t where
  mapped := h.mapped.frame hdevs hmaps hmapper hexpander
  running := hrunning.trans h.running
  rom := hmem.trans h.rom

instance : Enduring (RomHeld image) where
  traced _ _ _ h := h.frame rfl rfl rfl rfl rfl rfl
  console _ _ h := h.frame rfl rfl rfl rfl rfl rfl
  sdRead _ _ h := h.frame rfl rfl rfl rfl rfl rfl
  sdWrite _ _ _ _ h _ := h.frame rfl rfl rfl rfl rfl rfl
  remap op val _ h := ⟨remapped_mapped op val h.mapped.devices h.mapped.free, h.running, h.rom⟩

theorem ramWrite_romHeld {dev : ℕ} (hdev : dev ≠ 2) (offset : ℕ) (val : U8) :
    Keeps (RomHeld image) (ramWrite dev offset val) := by
  have hstore : Keeps (RomHeld image) (modify (Board.setMem dev offset val) : M Unit) := by
    refine ⟨fun s h => h.frame rfl rfl rfl rfl rfl ?_⟩
    ext1 a
    simp [Board.setMem, finalState, hdev.symm]
  rw [ramWrite]
  infer_instance

theorem Mapped.target_served (h : Mapped s) {a : ℕ} (ha : a < 0xFF80) :
    s.target a = s.priv.mapper.served a := by
  have hdev := s.priv.mapper.served_dev a
  have hresolve := h.resolve_served ha
  simp only [resolve, BusEntry.resolution, Resolution.mk.injEq] at hresolve
  have hattached : s.unattached (s.priv.mapper.served a).1 = false := h.attached (by omega)
  simp only [Board.target, hresolve.1, hresolve.2.1, hattached, Bool.false_eq_true, if_false]
  rw [Word.trunc_of_lt (by omega)]

theorem Mapped.target_expander (h : Mapped s) {a : ℕ} (hlow : 0xFF80 ≤ a) (ha : a < 0x10000) :
    s.target a = (5, a - 0xFF80) := by
  have hresolve := h.resolve_expander hlow ha
  simp only [resolve, BusEntry.resolution, Resolution.mk.injEq] at hresolve
  have hattached : s.unattached 5 = false := h.attached (by decide)
  simp only [Board.target, hresolve.1, hresolve.2.1, hattached, Bool.false_eq_true, if_false]
  rw [Word.trunc_of_lt (by decide)]

/-- The map lets no write through to the ROM. -/
theorem Mapper.permission_rom {m : Mapper} {a : ℕ} (ha : a < 0xFF80) (hdev : (m.served a).1 = 2) :
    m.permission a &&& MAP_WRITABLE = 0 := by
  have hrom : m.romdis = false ∧ 0xE000 ≤ a := by
    by_contra hram
    rw [served, if_neg hram] at hdev
    split at hdev <;> cases hdev
  rw [permission, if_neg (by omega), if_neg (by omega), if_pos hrom.1]
  decide

theorem Mapper.slot_ne_rom {m : Mapper} {i : ℕ} (h : m.romdis = true ∨ i = 10 ∨ i = 11) :
    (m.slot i).1 ≠ 2 := by
  rw [slot]
  by_cases h10 : i = 10
  · simp [h10]
  · by_cases h11 : i = 11
    · simp [h11]
    · have hrom : m.romdis = true := by simpa [h10, h11] using h
      cases hfrt : m.mmufrt <;> simp [h10, h11, hrom]

/-- A write that is let through changes no byte of the ROM. -/
theorem RomHeld.write_final (h : RomHeld image s) (pc : ℕ) {addr : ℕ} (val : U8)
    (ha : addr < 0x10000) (hw : (findMap s.busmaps addr).writable = true)
    (hspared : ¬RomSelected addr s) {t : Board Priv} (ht : RomHeld image t)
    (hpriv : t.priv = s.priv) :
    RomHeld image (finalState (hardware.write pc (s.target addr).1 (s.target addr).2 val t)) := by
  have hthrough : ∃ dev offset, dev ≠ 2 ∧
      throughExpander (s.target addr).1 (s.target addr).2 t = .ok (dev, offset) t := by
    by_cases hlow : addr < 0xFF80
    · rw [h.mapped.target_served hlow]
      have hdev := s.priv.mapper.served_dev addr
      refine ⟨_, _, ?_, ht.mapped.throughExpander_other hdev⟩
      intro hrom
      have hresolve := h.mapped.resolve_served hlow
      simp only [resolve, BusEntry.resolution, Resolution.mk.injEq] at hresolve
      rw [BusEntry.writable, bne_iff_ne, hresolve.2.2] at hw
      exact hw (Mapper.permission_rom hlow hrom)
    · rw [h.mapped.target_expander (by omega) ha]
      refine ⟨_, _, ?_, ht.mapped.throughExpander_run (by omega) ha⟩
      rw [hpriv]
      apply Mapper.slot_ne_rom
      by_contra hslot
      obtain ⟨hrom, h10, h11⟩ : s.priv.mapper.romdis = false ∧ (addr - 0xFF80) / 8 ≠ 10 ∧
          (addr - 0xFF80) / 8 ≠ 11 := by simpa using hslot
      exact hspared ⟨hrom, by omega, by omega⟩
  obtain ⟨dev, offset, hne, hrun⟩ := hthrough
  have hwrite : hardware.write pc (s.target addr).1 (s.target addr).2 val t =
      classWrite dev offset val t := run_bind_ok hrun
  rw [hwrite]
  exact (classWrite_keeps (ramWrite_romHeld hne offset val)).keeps t ht

theorem romKept_of_spared (h : Mapped s) (hrunning : s.cpuRunning = true) {es : List CpuAccess}
    (hes : Along (CpuAccess.perform hardware) RomSpared es s) : RomKept hardware es s := by
  have hheld : RomHeld (s.mem 2) s := ⟨h, hrunning, rfl⟩
  refine romKept_of_along read_keeps ?_ hheld hes ?_
  · rintro pc addr val t ht hspared ⟨haddr, hallowed⟩ log m
    have hwritable : (findMap t.busmaps addr).writable = true :=
      hallowed.resolve_left (by simp [ht.running])
    exact ht.write_final pc val haddr hwritable hspared (Untraced.traced log m t ht) rfl
  · intro t ht dev hrom
    have hdev : dev = 2 := by
      rw [h.devices] at hrom
      rcases dev with _ | _ | _ | _ | _ | _ | dev <;> simp [devices] at hrom ⊢
    rw [hdev, ht.rom]

end Exec09.Multicomp
