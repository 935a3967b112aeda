import Exec09.Bus.Traffic
import Exec09.Devices.ExpanderDispatch
import Exec09.Machines.Eon2

/-! # What accesses reach on eon2

The small MMU maps the RAM only, and no slot of the expander holds the ROM, so
the ROM stays behind the one mapping of the setup, which permits no writes.
-/
namespace Exec09.Eon2
open Foundation Access

/-- Accesses to the expander are those of its class. -/
theorem hardware_read {s : Board Priv} {dev : ℕ}
    (h : (s.devices.getD dev ⟨.null, 0⟩).cls = .ioexpand) (pc offset : ℕ) :
    hardware.read pc dev offset s = s.priv.expander.read classRead offset s := by
  have hthrough : throughExpander dev offset s = s.priv.expander.target offset s := by
    rw [throughExpander, run_bind_ok run_get, if_pos h]
  simp only [hardware, IoExpand.read, bind, EStateM.bind, hthrough]

theorem hardware_write {s : Board Priv} {dev : ℕ}
    (h : (s.devices.getD dev ⟨.null, 0⟩).cls = .ioexpand) (pc offset : ℕ) (val : U8) :
    hardware.write pc dev offset val s = s.priv.expander.write classWrite offset val s := by
  have hthrough : throughExpander dev offset s = s.priv.expander.target offset s := by
    rw [throughExpander, run_bind_ok run_get, if_pos h]
  simp only [hardware, IoExpand.write, bind, EStateM.bind, hthrough]

/-- An entry through which the ROM cannot be written. -/
def Safe (e : BusEntry) : Prop := Word.trunc 8 e.devid = 3 → e.writable = false

/-- No slot holds the ROM. -/
def NoRom (io : IoExpand) : Prop := ∀ slot dev, io.ios slot = some dev → dev ≠ 3

theorem noRom_empty : NoRom IoExpand.empty := fun _ _ h => nomatch h

theorem NoRom.attach {io : IoExpand} (h : NoRom io) (slot offset : ℕ) {dev : ℕ} (hdev : dev ≠ 3) :
    NoRom (io.attach slot offset dev) := by
  intro slot' dev' hslot
  simp only [IoExpand.attach, Function.update_apply] at hslot
  split at hslot
  · cases hslot
    exact hdev
  · exact h slot' dev' hslot

/-- The devices attached, and what keeps the ROM out of reach. -/
structure Sheltered (devs : List Device) (P : Priv → Prop) (s : Board Priv) : Prop where
  devices : s.devices = devs
  maps : ∀ b, Safe (s.busmaps b)
  priv : P s.priv

/-! ## Initialisation -/

section Setup
variable {devs devs' : List Device} {P : Priv → Prop} {E : Board Priv → Prop}

theorem Sheltered.of_has {n : ℕ} {m : M ℕ} (h : ∀ maps, Triple (Board.Has devs maps P) m
      (fun a s => a = n ∧ Board.Has devs' maps P s) E) :
    Triple (Sheltered devs P) m (fun a s => a = n ∧ Sheltered devs' P s) E := by
  rintro s ⟨hdevs, hmaps, hpriv⟩
  refine ((h s.busmaps).mono (fun _ h => h) ?_ fun _ h => h) s ⟨hdevs, rfl, hpriv⟩
  rintro a t ⟨ha, ht⟩
  exact ⟨ha, ht.devices, fun b => ht.busmaps ▸ hmaps b, ht.priv⟩

theorem setPriv_sheltered {Q : Priv → Prop} {f : Priv → Priv} (h : ∀ p, P p → Q (f p)) :
    Triple (Sheltered devs P) (setPriv f) (fun _ => Sheltered devs Q) E :=
  Triple.modify fun _ hs => ⟨hs.devices, hs.maps, h _ hs.priv⟩

theorem deviceAttach_sheltered {d : Device} {reset : ℕ → M Unit} {Q : Priv → Prop}
    (h : devs.length < 32) (hr : Triple (Sheltered (devs ++ [d]) P) (reset devs.length)
      (fun _ => Sheltered (devs ++ [d]) Q) E) :
    Triple (Sheltered devs P) (deviceAttach d reset)
      (fun n s => n = devs.length ∧ Sheltered (devs ++ [d]) Q s) E := by
  rintro s ⟨hdevs, hmaps, hpriv⟩
  refine deviceAttach_has h (hr.mono ?_ (fun _ _ h => h) fun _ h => h) s ⟨hdevs, rfl, hpriv⟩
  rintro t ⟨htdevs, htmaps, htpriv⟩
  exact ⟨htdevs, fun b => htmaps ▸ hmaps b, htpriv⟩

theorem deviceDefine_sheltered {devid offset addr len flags : ℕ}
    (hc : (⟨addr, devid, offset, len, flags⟩ : MapCall).Aligned)
    (hsafe : ∀ offset, Safe ⟨devid, offset, Word.trunc 8 flags⟩) :
    Triple (Sheltered devs P) (deviceDefine devid offset addr len flags)
      (fun _ => Sheltered devs P) E := by
  rintro s ⟨hdevs, hmaps, hpriv⟩
  refine (deviceDefine_has hc).mono (fun _ h => h) ?_ (fun _ h => h) s ⟨hdevs, rfl, hpriv⟩
  rintro a t ⟨htdevs, htmaps, htpriv⟩
  refine ⟨htdevs, fun b => ?_, htpriv⟩
  rw [htmaps, Layer.stamp]
  split
  · exact hsafe _
  · exact hmaps b

end Setup

/-- The RAM is behind the MMU. -/
def Behind (R : IoExpand → Prop) (p : Priv) : Prop := p.mmu.realdev = 1 ∧ R p.expander

variable {devs : List Device} {R : IoExpand → Prop} {E : Board Priv → Prop}

theorem safe_of_ne {devid : ℕ} (h : Word.trunc 8 devid ≠ 3) (offset flags : ℕ) :
    Safe ⟨devid, offset, flags⟩ := fun hrom => absurd hrom h

theorem safe_readable (devid offset : ℕ) : Safe ⟨devid, offset, Word.trunc 8 MAP_READABLE⟩ := by
  have hflags : (Word.trunc 8 MAP_READABLE &&& MAP_WRITABLE != 0) = false := by decide
  exact fun _ => hflags

theorem safe_ram (offset flags : ℕ) : Safe ⟨1, offset, flags⟩ := safe_of_ne (by decide) offset flags

theorem onMmu_keeps {α : Type} {m : SmallMmu.M α} (hm : Keeps (SmallMmu.Covers 1 Safe) m) :
    Keeps (Sheltered devs (Behind R)) (onMmu m) := by
  refine ⟨fun s h => ?_⟩
  have hend := hm.keeps (s.priv.mmu, s.busmaps) ⟨h.priv.1, h.maps⟩
  rw [onMmu]
  cases hrun : m (s.priv.mmu, s.busmaps) with
  | ok a t =>
    rw [hrun] at hend
    exact ⟨h.devices, hend.entries, hend.realdev, h.priv.2⟩
  | error e t =>
    rw [hrun] at hend
    exact ⟨h.devices, hend.entries, hend.realdev, h.priv.2⟩

theorem onMmu_reset : Triple (Sheltered devs (Behind R)) (onMmu SmallMmu.reset)
    (fun _ => Sheltered devs (Behind R)) E := by
  intro s h
  obtain ⟨t, hrun, -⟩ := SmallMmu.reset_run (s.priv.mmu, s.busmaps)
  have hmmu : onMmu SmallMmu.reset s =
      .ok () { s with busmaps := t.2, priv := { s.priv with mmu := t.1 } } := by
    rw [onMmu, hrun]
  have hend := (onMmu_keeps (R := R) (SmallMmu.reset_keeps safe_ram)).keeps s h
  rw [hmmu] at hend ⊢
  exact hend

theorem deviceAttach_behind {d : Device} {f : ℕ → Priv → Priv} (h : devs.length < 32)
    (hf : ∀ p, Behind R p → Behind R (f devs.length p)) :
    Triple (Sheltered devs (Behind R)) (deviceAttach d fun dev => setPriv (f dev))
      (fun n s => n = devs.length ∧ Sheltered (devs ++ [d]) (Behind R) s) E :=
  deviceAttach_sheltered h (setPriv_sheltered hf)

theorem ioexpandAttach_sheltered (slot offset : ℕ) {dev : ℕ} (hdev : dev ≠ 3) :
    Triple (Sheltered devs (Behind NoRom)) (ioexpandAttach slot offset dev)
      (fun _ => Sheltered devs (Behind NoRom)) E :=
  setPriv_sheltered fun _ h => ⟨h.1, h.2.attach slot offset hdev⟩

theorem eon2Init_sheltered (bootRom : ℕ → U8) (fin fout hostfile : ℕ) :
    Triple (Sheltered [⟨.null, 0⟩] fun _ => True) (eon2Init bootRom fin fout hostfile)
      (fun _ => Sheltered devices (Behind NoRom)) (fun _ => False) := by
  apply Triple.value (Sheltered.of_has fun _ => ramCreate_has (by decide))
  apply Triple.value (S := Sheltered _ (Behind fun _ => True))
  · apply (setPriv_sheltered (Q := Behind fun _ => True) fun p _ => ⟨rfl, trivial⟩).bind
    intro _
    exact deviceAttach_sheltered (by decide) onMmu_reset
  apply Triple.value (Sheltered.of_has fun _ => romCreate_has (by decide))
  apply (deviceDefine_sheltered (by constructor <;> decide) (safe_readable _)).bind
  intro _
  apply Triple.value (S := Sheltered _ (Behind NoRom))
  · apply (setPriv_sheltered (Q := Behind NoRom) fun p hp => ⟨hp.1, noRom_empty⟩).bind
    intro _
    exact deviceAttach_sheltered (by decide) (Triple.pure _ fun _ h => h)
  apply (deviceDefine_sheltered (by constructor <;> decide) (safe_of_ne (by decide) · _)).bind
  intro _
  apply Triple.value (deviceAttach_behind (by decide) fun _ h => h)
  apply (ioexpandAttach_sheltered 0 0 (by decide)).bind
  intro _
  apply Triple.value (deviceAttach_behind (by decide) fun _ h => h)
  apply (ioexpandAttach_sheltered 1 0 (by decide)).bind
  intro _
  apply (ioexpandAttach_sheltered 2 0 (by decide)).bind
  intro _
  apply Triple.value (deviceAttach_behind (by decide) fun _ h => h)
  apply (ioexpandAttach_sheltered 3 0 (by decide)).bind
  intro _
  apply Triple.value (deviceAttach_behind (by decide) fun _ h => h)
  apply (ioexpandAttach_sheltered 9 0 (by decide)).bind
  intro _
  exact Triple.value (deviceAttach_behind (by decide) fun _ h => ⟨h.1, h.2⟩)
    (Triple.pure _ fun _ h => h)

/-- The machine initialised and the CPU started. -/
def started (bootRom : ℕ → U8) (fin fout hostfile : ℕ) : M Unit := do
  init bootRom fin fout hostfile
  modify fun s => { s with cpuRunning := true }

theorem started_run (debug : Bool) (priv : Priv) (bootRom : ℕ → U8) (fin fout hostfile : ℕ) :
    ∃ s, started bootRom fin fout hostfile (Board.start .fault debug priv) = .ok () s ∧
      Sheltered devices (Behind NoRom) s ∧ s.cpuRunning = true := by
  have hinit : Triple (fun s : Board Priv => s.devices = [] ∧ True) (init bootRom fin fout hostfile)
      (fun _ => Sheltered devices (Behind NoRom)) (fun _ => False) := by
    apply machineInit_has (P := fun _ => True) (R := Sheltered devices (Behind NoRom))
    · refine (eon2Init_sheltered bootRom fin fout hostfile).mono ?_ (fun _ _ h => h) fun _ h => h
      rintro s ⟨hdevs, hmaps, -⟩
      refine ⟨hdevs, fun b => ?_, trivial⟩
      rw [hmaps]
      exact safe_of_ne (by decide) _ _
    · intro s h
      exact ⟨h.devices, h.maps, h.priv⟩
  obtain ⟨_, u, hrun, hu⟩ := hinit.total (s := Board.start .fault debug priv) ⟨rfl, trivial⟩
  exact ⟨{ u with cpuRunning := true }, run_bind_ok hrun, ⟨hu.devices, hu.maps, hu.priv⟩, rfl⟩

/-! ## The ROM -/

structure RomHeld (image : ℕ → U8) (s : Board Priv) : Prop where
  sheltered : Sheltered devices (Behind NoRom) s
  running : s.cpuRunning = true
  rom : s.mem 3 = image

variable {image : ℕ → U8} {s : Board Priv}

theorem RomHeld.frame (h : RomHeld image s) {t : Board Priv} (hdevs : t.devices = s.devices)
    (hmaps : t.busmaps = s.busmaps) (hmmu : t.priv.mmu = s.priv.mmu)
    (hexpander : t.priv.expander = s.priv.expander) (hrunning : t.cpuRunning = s.cpuRunning)
    (hmem : t.mem 3 = s.mem 3) : RomHeld image t where
  sheltered := by
    refine ⟨hdevs.trans h.sheltered.devices, ?_, ?_⟩
    · rw [hmaps]
      exact h.sheltered.maps
    · rw [Behind, hmmu, hexpander]
      exact h.sheltered.priv
  running := hrunning.trans h.running
  rom := hmem.trans h.rom

instance : Untraced (RomHeld image) where
  traced _ _ _ h := h.frame rfl rfl rfl rfl rfl rfl

theorem onMmu_held {α : Type} {m : SmallMmu.M α} (hm : Keeps (SmallMmu.Covers 1 Safe) m) :
    Keeps (RomHeld image) (onMmu m) := by
  refine ⟨fun s h => ?_⟩
  have hend := (onMmu_keeps hm).keeps s h.sheltered
  refine ⟨hend, ?_, ?_⟩
  · rw [onMmu]
    cases m (s.priv.mmu, s.busmaps) <;> exact h.running
  · rw [onMmu]
    cases m (s.priv.mmu, s.busmaps) <;> exact h.rom

instance throughExpander_held (dev offset : ℕ) :
    Keeps (RomHeld image) (throughExpander dev offset) := by
  have htarget (io : IoExpand) : Keeps (RomHeld image) (io.target offset : M (ℕ × ℕ)) := by
    rw [IoExpand.target]
    cases io.ios (offset / 8) <;> infer_instance
  rw [throughExpander]
  infer_instance

theorem classRead_held (dev offset : ℕ) : Keeps (RomHeld image) (classRead dev offset) := by
  have hram : Keeps (RomHeld image) (ramRead dev offset) := by
    rw [ramRead]
    infer_instance
  have hmmu : Keeps (RomHeld image) (onMmu (SmallMmu.smallMmuRead offset)) :=
    onMmu_held (SmallMmu.smallMmuRead_keeps offset)
  have hserial : Keeps (RomHeld image) (serialRead dev offset) := by
    rw [serialRead]
    refine Keeps.get.seq fun s => ?_
    exact Keeps.seq ⟨fun s h => h.frame rfl rfl rfl rfl rfl rfl⟩ fun _ => Keeps.pure _
  rw [classRead]
  refine Keeps.get.seq fun s => ?_
  generalize (s.devices.getD dev ⟨.null, 0⟩).cls = cls
  cases cls <;> infer_instance

theorem read_keeps (pc dev offset : ℕ) : Keeps (RomHeld image) (hardware.read pc dev offset) :=
  (throughExpander_held dev offset).seq fun place => classRead_held place.1 place.2

theorem classWrite_held {dev : ℕ} (hdev : dev ≠ 3) (offset : ℕ) (val : U8) :
    Keeps (RomHeld image) (classWrite dev offset val) := by
  have hram : Keeps (RomHeld image) (ramWrite dev offset val) := by
    have hstore : Keeps (RomHeld image) (modify (Board.setMem dev offset val) : M Unit) := by
      refine ⟨fun s h => h.frame rfl rfl rfl rfl rfl ?_⟩
      ext1 a
      simp [Board.setMem, finalState, hdev.symm]
    rw [ramWrite]
    infer_instance
  have hmmu : Keeps (RomHeld image) (onMmu (SmallMmu.smallMmuWrite offset val)) :=
    onMmu_held (SmallMmu.smallMmuWrite_keeps safe_ram offset val)
  have hserial : Keeps (RomHeld image) (serialWrite dev offset val) :=
    ⟨fun s h => h.frame rfl rfl rfl rfl rfl rfl⟩
  have hdisk : Keeps (RomHeld image) (diskWrite offset val) :=
    ⟨fun s h => h.frame rfl rfl rfl rfl rfl rfl⟩
  have himux : Keeps (RomHeld image) (imuxWrite offset val) :=
    ⟨fun s h => h.frame rfl rfl rfl rfl rfl rfl⟩
  rw [classWrite]
  refine Keeps.get.seq fun s => ?_
  generalize (s.devices.getD dev ⟨.null, 0⟩).cls = cls
  cases cls <;> infer_instance

/-- The expander leads to none of its devices but those in the slots. -/
theorem throughExpander_gives {dev : ℕ} (hdev : dev ≠ 3) (offset : ℕ) :
    Gives (RomHeld image) (throughExpander dev offset) (fun place => place.1 ≠ 3) where
  gives := by
    intro s h
    rw [throughExpander, run_bind_ok run_get]
    by_cases hexpander : (s.devices.getD dev ⟨.null, 0⟩).cls = .ioexpand
    · rw [if_pos hexpander, IoExpand.target]
      by_cases hslot : offset / 8 < 16
      · rw [if_pos hslot]
        cases hios : s.priv.expander.ios (offset / 8) with
        | some d => exact ⟨h.sheltered.priv.2 _ d hios, h⟩
        | none =>
          have herror : Triple (RomHeld image) (Access.simError : M Unit)
              (fun _ => RomHeld image) (RomHeld image) := Keeps.rule
          exact herror.bind (fun _ => Triple.throw fun _ h => h) s h
      · rw [if_neg hslot]
        exact h
    · rw [if_neg hexpander]
      exact ⟨hdev, h⟩

theorem write_keeps {dev : ℕ} (hdev : dev ≠ 3) (pc offset : ℕ) (val : U8) :
    Keeps (RomHeld image) (hardware.write pc dev offset val) := by
  have hplace : Gives (RomHeld image) (throughExpander dev offset) (fun place => place.1 ≠ 3) :=
    throughExpander_gives hdev offset
  have hclass (place : { p : ℕ × ℕ // p.1 ≠ 3 }) :
      Keeps (RomHeld image) (classWrite place.1.1 place.1.2 val) :=
    classWrite_held place.2 place.1.2 val
  exact hplace.seq hclass

theorem romKept (h : Sheltered devices (Behind NoRom) s) (hrunning : s.cpuRunning = true)
    (es : List CpuAccess) : RomKept hardware es s := by
  have hheld : RomHeld (s.mem 3) s := ⟨h, hrunning, rfl⟩
  refine romKept_of_along read_keeps ?_ hheld (along_trivial es s) ?_
  · rintro pc addr val t ht - ⟨-, hallowed⟩ log m
    have hwritable : (findMap t.busmaps addr).writable = true :=
      hallowed.resolve_left (by simp [ht.running])
    have hsafe : Safe (findMap t.busmaps addr) := ht.sheltered.maps _
    have hdev : (t.target addr).1 ≠ 3 := by
      simp only [Board.target]
      split
      · decide
      · intro hrom
        rw [hsafe hrom] at hwritable
        cases hwritable
    exact (write_keeps hdev pc _ val).keeps _ (Untraced.traced log m t ht)
  · intro t ht dev hrom
    have hdev : dev = 3 := by
      rw [h.devices] at hrom
      rcases dev with _ | _ | _ | _ | _ | _ | _ | _ | _ | _ | dev <;> simp [devices] at hrom ⊢
    rw [hdev, ht.rom]

end Exec09.Eon2
