import Exec09.Machines.Eon

/-! # Paging on eon

After the setup and any writes to the MMU registers, the map of the pages 0 to
13 is the one the registers describe. The pages 14 and 15 with the I/O
registers and the boot ROM are meant to stay as they are, but nothing keeps
their registers from being written: only the block of the MMU itself is fixed.
-/
namespace Exec09.Eon
open Foundation Access

/-- The register file and the map of the remappable pages agree. -/
structure Coherent (s : Board Priv) : Prop where
  devices : s.devices = devices
  pages : ∀ p < 14, ∀ k < 32, s.busmaps (32 * p + k) =
    ⟨(s.priv.mmuRegs p 0).toNat, (s.priv.mmuRegs p 1).toNat * 0x1000 + 128 * k,
      (s.priv.mmuRegs p 2).toNat &&& MAP_READWRITE⟩
  mmu : s.busmaps (0xE000 / 128) = ⟨1, 0, MAP_READWRITE + MAP_FIXED⟩

theorem AfterSetup.coherent {s : Board Priv} (h : AfterSetup s) : Coherent s where
  devices := h.devices
  pages := by
    intro p hp k hk
    have hentry (k : ℕ) (hk : k < 32) :
        setupEntry (32 * p + k) = ⟨2, 128 * (32 * p + k), MAP_READWRITE⟩ := by
      simp only [setupEntry]
      rw [if_neg (by omega), if_neg (by omega), if_neg (by omega), if_pos (by omega)]
    have hfirst : setupEntry (4 + p * 32) = ⟨2, 128 * (32 * p + 4), MAP_READWRITE⟩ := by
      rw [← hentry 4 (by decide)]
      congr 1
      omega
    obtain ⟨hdev, hoff, hflags⟩ := h.mmuRegs p (by omega)
    have hpage : 128 * (32 * p + 4) / 0x1000 = p := by omega
    rw [h.busmaps _ (by omega), hentry k hk, hdev, hoff, hflags, hfirst, hpage]
    have hp8 : p % 256 = p := Nat.mod_eq_of_lt (by omega)
    have hoff : 128 * (32 * p + k) = p * 0x1000 + 128 * k := by omega
    simp [hp8, hoff, MAP_READWRITE]
  mmu := h.busmaps _ (by decide)

theorem Coherent.entry {s : Board Priv} (h : Coherent s) {b : ℕ} (hb : b < 448) :
    s.busmaps b = pageEntry (s.priv.mmuRegs (b / 32)) b := by
  have hpage := h.pages (b / 32) (by omega) (b % 32) (by omega)
  have hsplit : 32 * (b / 32) + b % 32 = b := Nat.div_add_mod b 32
  rwa [hsplit] at hpage

/-- One register write, whichever page it is for. -/
theorem Coherent.mmuWrite (addr : ℕ) (val : U8) :
    Triple Coherent (mmuWrite addr val) (fun _ => Coherent) (fun _ => False) := by
  intro s h
  rw [mmuWrite_run]
  generalize hq : addr / 4 % 16 = q
  refine ⟨h.devices, ?_, ?_⟩
  · intro p hp k hk
    have hpage : (32 * p + k) / 32 = p := by omega
    have hin : (32 * p + k) % 32 = k := by omega
    have hentry := h.entry (show 32 * p + k < 448 by omega)
    rw [mapped_pageCall, hpage]
    by_cases hpq : p = q
    · have hfree : ((setReg q (addr % 4) val s).busmaps (32 * p + k)).fixed = false := by
        change (s.busmaps (32 * p + k)).fixed = false
        rw [hentry, pageEntry_fixed]
      rw [if_pos ⟨hpq, hfree⟩, pageEntry, hin, ← hpq]
      rfl
    · have hregs : (setReg q (addr % 4) val s).priv.mmuRegs p = s.priv.mmuRegs p := by
        ext1 r
        simp [setReg, hpq]
      rw [if_neg fun hc => hpq hc.1]
      change s.busmaps (32 * p + k) = ⟨((setReg q (addr % 4) val s).priv.mmuRegs p 0).toNat,
        ((setReg q (addr % 4) val s).priv.mmuRegs p 1).toNat * 0x1000 + 128 * k,
        ((setReg q (addr % 4) val s).priv.mmuRegs p 2).toNat &&& MAP_READWRITE⟩
      rw [hregs]
      exact h.pages p hp k hk
  · have hfixed : ((setReg q (addr % 4) val s).busmaps (0xE000 / 128)).fixed = true := by
      change (s.busmaps (0xE000 / 128)).fixed = true
      rw [h.mmu]
      rfl
    rw [mapped_pageCall, if_neg fun hc => by rw [hfixed] at hc; cases hc.2]
    exact h.mmu

/-- The machine set up and a sequence of register writes made. -/
def configured (bootRom : ℕ → U8) (ws : List (ℕ × U8)) : M Unit := do
  init bootRom
  runAll (fun w => Eon.mmuWrite w.1 w.2) ws

theorem eon_coherent (debug : Bool) (priv : Priv) (bootRom : ℕ → U8) (ws : List (ℕ × U8)) :
    ∃ s, configured bootRom ws (Board.start .fault debug priv) = .ok () s ∧ Coherent s := by
  have hrun : Triple (fun s => s.devices = []) (configured bootRom ws) (fun _ => Coherent)
      (fun _ => False) := by
    apply (init_afterSetup bootRom).bind
    intro _
    have hwrites := runAll_keeps (fun w : ℕ × U8 => Coherent.mmuWrite w.1 w.2) ws
    exact hwrites.mono (fun _ h => h.coherent) (fun _ _ h => h) fun _ h => h
  obtain ⟨_, s, hs, hcoherent⟩ := hrun.total (s := Board.start .fault debug priv) rfl
  exact ⟨s, hs, hcoherent⟩

/-! ## The I/O page and the boot ROM -/

/-- A write of the guest to one of the addresses `0xE000` to `0xE07F`. -/
structure RegisterWrite where
  pc : ℕ
  reg : Fin 128
  val : U8

namespace RegisterWrite

def perform (w : RegisterWrite) : M Unit := cpuWrite8 hardware w.pc (0xE000 + w.reg) w.val

def page (w : RegisterWrite) : ℕ := w.reg / 4 % 16

end RegisterWrite

/-- The range `0xE000` to `0xFFFF` is mapped as the setup left it. -/
def IoVisible (s : Board Priv) : Prop :=
  ∀ b, 0xE000 / 128 ≤ b → b < 512 → s.busmaps b = setupEntry b

/-- The registers can be written, and no block but their own is fixed. -/
structure Writable (s : Board Priv) : Prop where
  devices : s.devices = devices
  mmu : s.busmaps 448 = ⟨1, 0, MAP_READWRITE + MAP_FIXED⟩
  free : ∀ b < 512, b ≠ 448 → (s.busmaps b).fixed = false

/-- One of the two upper pages is mapped by its registers alone. -/
def Remapped (s : Board Priv) : Prop :=
  ∃ q, 14 ≤ q ∧ q < 16 ∧
    ∀ b, b / 32 = q → b ≠ 448 → s.busmaps b = pageEntry (s.priv.mmuRegs q) b

/-- The setup maps neighbouring blocks of each upper page to different devices. -/
theorem Remapped.not_ioVisible {s : Board Priv} (h : Remapped s) : ¬IoVisible s := by
  obtain ⟨q, hlow, hhigh, hq⟩ := h
  intro hio
  have hpage : q = 14 ∨ q = 15 := by omega
  rcases hpage with rfl | rfl
  · have h₁ := (hq 449 (by decide) (by decide)).symm.trans (hio 449 (by decide) (by decide))
    have h₂ := (hq 450 (by decide) (by decide)).symm.trans (hio 450 (by decide) (by decide))
    have hdev : (setupEntry 449).devid = (setupEntry 450).devid := by rw [← h₁, ← h₂]; rfl
    exact absurd hdev (by decide)
  · have h₁ := (hq 509 (by decide) (by decide)).symm.trans (hio 509 (by decide) (by decide))
    have h₂ := (hq 510 (by decide) (by decide)).symm.trans (hio 510 (by decide) (by decide))
    have hdev : (setupEntry 509).devid = (setupEntry 510).devid := by rw [← h₁, ← h₂]; rfl
    exact absurd hdev (by decide)

/-- A write to a register address reaches `mmu_write`. -/
theorem RegisterWrite.perform_run (w : RegisterWrite) {s : Board Priv} (h : Writable s) :
    ∃ e, w.perform s = .ok () (((setReg w.page (w.reg % 4) w.val s).mapped (pageCall w.page
      ((setReg w.page (w.reg % 4) w.val s).priv.mmuRegs w.page))).record e) := by
  have hreg : w.reg.val < 128 := w.reg.isLt
  have hblock : (0xE000 + w.reg.val) / 128 = 448 := by omega
  have hmap : findMap s.busmaps (0xE000 + w.reg) = ⟨1, 0, MAP_READWRITE + MAP_FIXED⟩ := by
    rw [findMap, hblock, h.mmu]
  have hattached : s.unattached 1 = false := by
    rw [Board.unattached, h.devices]
    rfl
  have hoffset : Word.trunc 64 (0 + (0xE000 + w.reg.val) % 128) = w.reg := by
    rw [Word.trunc_of_lt (by omega)]
    omega
  have hwrite : hardware.write w.pc 1 w.reg w.val s = mmuWrite w.reg w.val s := by
    simp only [hardware]
    rw [run_bind_ok run_get, h.devices]
    rfl
  have hchecked : writeChecked hardware w.pc (0xE000 + w.reg) 1 w.reg
      ⟨1, 0, MAP_READWRITE + MAP_FIXED⟩ w.val s = mmuWrite w.reg w.val s := by
    have hwritable : (⟨1, 0, MAP_READWRITE + MAP_FIXED⟩ : BusEntry).writable = true := by decide
    rw [writeChecked, run_bind_ok run_get, if_pos (by rw [hwritable, Bool.or_true]), hwrite]
  rw [perform, cpuWrite8, run_bind_ok (entry_run (by omega) s), hmap,
    run_bind_ok (findDevice_attached _ hattached), hoffset]
  exact ⟨_, run_bind_ok (hchecked.trans (mmuWrite_run _ _ _))⟩

/-- One guest write keeps the upper pages as long as it is not for one of them. -/
theorem RegisterWrite.tracks (w : RegisterWrite) (kept : Bool) :
    Triple (fun s => Writable s ∧ if kept then IoVisible s else Remapped s) w.perform
      (fun _ s => Writable s ∧ if kept && w.page < 14 then IoVisible s else Remapped s)
      (fun _ => False) := by
  rintro s ⟨hw, hs⟩
  obtain ⟨e, hrun⟩ := w.perform_run hw
  rw [hrun]
  generalize ht : ((setReg w.page (w.reg % 4) w.val s).mapped (pageCall w.page
    ((setReg w.page (w.reg % 4) w.val s).priv.mmuRegs w.page))).record e = t
  have hdevs : t.devices = s.devices := by rw [← ht]; rfl
  have hentry (b : ℕ) : t.busmaps b =
      if b / 32 = w.page ∧ (s.busmaps b).fixed = false then pageEntry (t.priv.mmuRegs w.page) b
      else s.busmaps b := by
    rw [← ht]
    exact mapped_pageCall _ _ _ b
  have hregs (p : ℕ) (hp : p ≠ w.page) : t.priv.mmuRegs p = s.priv.mmuRegs p := by
    rw [← ht]
    ext1 r
    simp [Board.record, Board.mapped, setReg, hp]
  have hother (b : ℕ) (hb : b / 32 ≠ w.page) : t.busmaps b = s.busmaps b := by
    rw [hentry, if_neg fun hc => hb hc.1]
  have hpage : w.page < 16 := Nat.mod_lt _ (by decide)
  refine ⟨⟨hdevs.trans hw.devices, ?_, ?_⟩, ?_⟩
  · have hfixed : (s.busmaps 448).fixed = true := by rw [hw.mmu]; rfl
    rw [hentry, if_neg (by simp [hfixed]), hw.mmu]
  · intro b hb hne
    rw [hentry]
    by_cases hc : b / 32 = w.page ∧ (s.busmaps b).fixed = false
    · rw [if_pos hc, pageEntry_fixed]
    · rw [if_neg hc]
      exact hw.free b hb hne
  · by_cases hq : w.page < 14
    · simp only [hq, decide_true, Bool.and_true]
      cases kept with
      | true =>
        intro b hlow hb
        rw [hother b (by omega)]
        exact hs b hlow hb
      | false =>
        obtain ⟨q, hlow, hhigh, hmaps⟩ := hs
        refine ⟨q, hlow, hhigh, ?_⟩
        intro b hb hne
        rw [hother b (by omega), hregs q (by omega)]
        exact hmaps b hb hne
    · simp only [hq, decide_false, Bool.and_false]
      refine ⟨w.page, by omega, hpage, ?_⟩
      intro b hb hne
      rw [hentry, if_pos ⟨hb, hw.free b (by omega) hne⟩]

theorem RegisterWrite.runAll_tracks (ws : List RegisterWrite) (kept : Bool) :
    Triple (fun s => Writable s ∧ if kept then IoVisible s else Remapped s)
      (runAll RegisterWrite.perform ws)
      (fun _ s => Writable s ∧
        if kept && ws.all (fun w => w.page < 14) then IoVisible s else Remapped s)
      (fun _ => False) := by
  induction ws generalizing kept with
  | nil => exact Triple.pure _ fun s hs => by simpa using hs
  | cons w ws ih =>
    apply (w.tracks kept).bind
    intro _
    apply (ih (kept && w.page < 14)).mono (fun _ h => h) ?_ fun _ h => h
    intro _ s hs
    rw [List.all_cons, ← Bool.and_assoc]
    exact hs

theorem AfterSetup.writable {s : Board Priv} (h : AfterSetup s) : Writable s where
  devices := h.devices
  mmu := h.busmaps _ (by decide)
  free := by
    have hfree : ∀ b < 512, b ≠ 448 → (setupEntry b).fixed = false := by decide +kernel
    intro b hb hne
    rw [h.busmaps b hb]
    exact hfree b hb hne

/-- The machine set up and a sequence of guest writes made. -/
def written (bootRom : ℕ → U8) (ws : List RegisterWrite) : M Unit := do
  init bootRom
  runAll RegisterWrite.perform ws

theorem written_tracks (bootRom : ℕ → U8) (ws : List RegisterWrite) :
    Triple (fun s => s.devices = []) (written bootRom ws)
      (fun _ s => Writable s ∧ if ws.all (fun w => w.page < 14) then IoVisible s else Remapped s)
      (fun _ => False) := by
  apply (init_afterSetup bootRom).bind
  intro _
  apply (RegisterWrite.runAll_tracks ws true).mono ?_ (fun _ _ h => h) fun _ h => h
  intro s h
  exact ⟨h.writable, fun b _ hb => h.busmaps b hb⟩

/-- The upper pages keep the mapping of the setup exactly if none of the writes is to a register
of the pages 14 and 15. -/
theorem ioVisible_iff (debug : Bool) (priv : Priv) (bootRom : ℕ → U8) (ws : List RegisterWrite) :
    ∃ s, written bootRom ws (Board.start .fault debug priv) = .ok () s ∧
      (IoVisible s ↔ ∀ w ∈ ws, w.page < 14) := by
  obtain ⟨_, s, hs, _, hkept⟩ :=
    (written_tracks bootRom ws).total (s := Board.start .fault debug priv) rfl
  refine ⟨s, hs, ?_⟩
  by_cases hall : ws.all (fun w => w.page < 14) = true
  · rw [if_pos hall] at hkept
    simpa [hkept] using hall
  · rw [if_neg hall] at hkept
    simpa [hkept.not_ioVisible] using hall

def blank : Priv := ⟨fun _ _ => 0, ⟨⟨fun _ => 0, 0, 0⟩, 0, 0⟩, [], []⟩

/-- Writing 5 to the device register of page 14 maps the whole page to the disk. -/
theorem ioVisible_lost : ∃ s,
    written (fun _ => 0) [⟨0xF000, 0x38, 5⟩] (Board.start .fault false blank) = .ok () s ∧
      ¬IoVisible s := by
  obtain ⟨_, s, hs, _, hlost⟩ := (written_tracks (fun _ => 0) [⟨0xF000, 0x38, 5⟩]).total
    (s := Board.start .fault false blank) rfl
  exact ⟨s, hs, Remapped.not_ioVisible hlost⟩

end Exec09.Eon
