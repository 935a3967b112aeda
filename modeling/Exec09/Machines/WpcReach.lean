import Exec09.Bus.Traffic
import Exec09.Machines.Wpc

/-! # What accesses reach on wpc

Five registers of the ASIC decide over the map, and the map after any accesses
is the one that their last values describe. The ROM window shows the RAM once
it has been paged, and each half of the display window the ROM.
-/
namespace Exec09.Wpc
open Foundation Access

/-- The last values of the registers that decide over the map. -/
structure Regs where
  unlocked : U8
  lockSize : U8
  /-- These have no value before the first write. -/
  bank : Option U8
  low : Option U8
  high : Option U8

namespace Regs

def start : Regs := ⟨0, 0, none, none, none⟩

def limit (r : Regs) : ℕ := sizeWritable r.unlocked r.lockSize

def ramEntry (b : ℕ) (r : Regs) : BusEntry :=
  ⟨2, 128 * b, if 128 * b < r.limit then MAP_READWRITE else MAP_READABLE⟩

/-- A half of the display window. -/
def dmdEntry (half : ℕ) (page : Option U8) (b : ℕ) : BusEntry :=
  match page with
  | none => ⟨4, 0x200 * half + 128 * b, MAP_READWRITE⟩
  | some v => ⟨3, v.toNat * 0x200 + 128 * b, MAP_READWRITE⟩

/-- The ROM window. -/
def bankEntry (bank : Option U8) (b : ℕ) : BusEntry :=
  match bank with
  | none => ⟨3, 128 * b, MAP_READABLE⟩
  | some v => ⟨2, v.toNat * 0x4000 + 128 * b, MAP_READABLE⟩

/-- The map that the registers describe. -/
def entry (b : ℕ) (r : Regs) : BusEntry :=
  if b < 64 then r.ramEntry b
  else if b < 112 then ⟨INVALID_DEVID, 0, 0⟩
  else if b < 116 then dmdEntry 0 r.low (b - 112)
  else if b < 120 then dmdEntry 1 r.high (b - 116)
  else if b < 128 then ⟨1, 128 * (b - 120), MAP_READWRITE⟩
  else if b < 256 then bankEntry r.bank (b - 128)
  else ⟨3, 0xF8000 + 128 * (b - 256), MAP_READABLE⟩

theorem limit_cases (r : Regs) : r.limit = 0x1000 ∨ r.limit = 0x1800 ∨ r.limit = 0x1C00 ∨
    r.limit = 0x1A00 ∨ r.limit = 0x1F00 ∨ r.limit = 0x2000 := by
  rw [limit, sizeWritable]
  split
  · split <;> simp [WPC_RAM_SIZE]
  · simp [WPC_RAM_SIZE]

theorem entry_free (b : ℕ) (r : Regs) : (r.entry b).fixed = false := by
  have hwritable : (MAP_READWRITE &&& MAP_FIXED != 0) = false := by decide
  have hreadable : (MAP_READABLE &&& MAP_FIXED != 0) = false := by decide
  have hram : (r.ramEntry b).fixed = false := by
    rw [ramEntry, BusEntry.fixed]
    dsimp only
    split <;> assumption
  have hdmd (half b : ℕ) (page : Option U8) : (dmdEntry half page b).fixed = false := by
    cases page <;> exact hwritable
  have hbank (b : ℕ) : (bankEntry r.bank b).fixed = false := by
    cases r.bank <;> exact hreadable
  rw [entry]
  split_ifs
  · exact hram
  · decide
  · exact hdmd _ _ _
  · exact hdmd _ _ _
  · exact hwritable
  · exact hbank _
  · exact hreadable

end Regs

variable {r : Regs} {s : Board Priv}

/-- The map is as the registers describe. -/
structure Paged (r : Regs) (s : Board Priv) : Prop where
  devices : s.devices = devices
  maps : ∀ b < 512, s.busmaps b = r.entry b
  ramDev : s.priv.asic.ramDev = 2
  unlocked : s.priv.asic.ramUnlocked = r.unlocked
  lockSize : s.priv.asic.ramLockSize = r.lockSize

namespace Paged

theorem free (h : Paged r s) {b : ℕ} (hb : b < 512) : (s.busmaps b).fixed = false := by
  rw [h.maps b hb, Regs.entry_free]

theorem mapped (h : Paged r s) {c : MapCall} {r' : Regs} (hoffset : c.offset < 2 ^ 32)
    (hflags : c.flags < 2 ^ 8) (hunlocked : r'.unlocked = r.unlocked)
    (hlockSize : r'.lockSize = r.lockSize)
    (hentry : ∀ b < 512, r'.entry b = if c.addr / 128 ≤ b ∧ b < (c.addr + c.len) / 128 then
      ⟨c.devid, c.offset + 128 * (b - c.addr / 128), c.flags⟩ else r.entry b) :
    Paged r' (s.mapped c) where
  devices := h.devices
  maps := by
    intro b hb
    have hstamp := MapCall.stamp_eq (c := c) (h.free hb) (by omega) hflags
    rw [h.maps b hb] at hstamp
    exact hstamp.trans (hentry b hb).symm
  ramDev := h.ramDev
  unlocked := h.unlocked.trans hunlocked.symm
  lockSize := h.lockSize.trans hlockSize.symm

/-- A change of the other registers. -/
theorem asic (h : Paged r s) {f : Asic → Asic}
    (hf : ∀ a, (f a).ramDev = a.ramDev ∧ (f a).ramUnlocked = a.ramUnlocked ∧
      (f a).ramLockSize = a.ramLockSize) :
    Paged r { s with priv := { s.priv with asic := f s.priv.asic } } where
  devices := h.devices
  maps := h.maps
  ramDev := (hf _).1.trans h.ramDev
  unlocked := (hf _).2.1.trans h.unlocked
  lockSize := (hf _).2.2.trans h.lockSize

theorem romPage (h : Paged r s) (val : U8) : Paged { r with bank := some val }
    (s.mapped ⟨0x4000, 2, val.toNat * 0x4000, 0x4000, MAP_READABLE⟩) := by
  have hval : val.toNat < 2 ^ 8 := val.isLt
  refine h.mapped (by dsimp only; omega) (by dsimp only; decide) rfl rfl fun b hb => ?_
  simp only [Regs.entry]
  split_ifs <;> first | omega | rfl

theorem dmdLow (h : Paged r s) (val : U8) : Paged { r with low := some val }
    (s.mapped ⟨0x3800, 3, val.toNat * 0x200, 0x200, MAP_READWRITE⟩) := by
  have hval : val.toNat < 2 ^ 8 := val.isLt
  refine h.mapped (by dsimp only; omega) (by dsimp only; decide) rfl rfl fun b hb => ?_
  simp only [Regs.entry]
  split_ifs <;> first | omega | rfl

theorem dmdHigh (h : Paged r s) (val : U8) : Paged { r with high := some val }
    (s.mapped ⟨0x3A00, 3, val.toNat * 0x200, 0x200, MAP_READWRITE⟩) := by
  have hval : val.toNat < 2 ^ 8 := val.isLt
  refine h.mapped (by dsimp only; omega) (by dsimp only; decide) rfl rfl fun b hb => ?_
  simp only [Regs.entry]
  split_ifs <;> first | omega | rfl

end Paged

/-- `wpc_update_ram` maps the RAM again and leaves the rest of the map. -/
theorem wpcUpdateRam_run (hdevs : s.devices = devices) (hram : s.priv.asic.ramDev = 2)
    (hunlocked : s.priv.asic.ramUnlocked = r.unlocked) (hlockSize : s.priv.asic.ramLockSize = r.lockSize)
    (hfree : ∀ b < 512, (s.busmaps b).fixed = false)
    (hmaps : ∀ b < 512, 64 ≤ b → s.busmaps b = r.entry b) :
    ∃ maps, wpcUpdateRam s = .ok () { s with busmaps := maps } ∧
      Paged r { s with busmaps := maps } := by
  have hlimit : sizeWritable s.priv.asic.ramUnlocked s.priv.asic.ramLockSize = r.limit := by
    rw [hunlocked, hlockSize, Regs.limit]
  have hcases := r.limit_cases
  generalize hw : r.limit = w at hcases hlimit
  generalize hc : (⟨0, 2, 0, w, MAP_READWRITE⟩ : MapCall) = c
  generalize hd : (⟨w, 2, w, WPC_RAM_SIZE - w, MAP_READABLE⟩ : MapCall) = d
  have hcaligned : c.Aligned := by
    subst hc
    constructor <;> simp only [] <;> omega
  have hdaligned : d.Aligned := by
    subst hd
    constructor <;> simp only [WPC_RAM_SIZE] <;> omega
  have hfirst (b : ℕ) (hb : b < 512) : (s.mapped c).busmaps b =
      if b < w / 128 then ⟨2, 128 * b, MAP_READWRITE⟩ else s.busmaps b := by
    have hstamp := MapCall.stamp_eq (c := c) (hfree b hb) (by simp only [← hc]; omega)
      (by simp only [← hc]; decide)
    refine hstamp.trans ?_
    simp [← hc]
  have hfirstFree (b : ℕ) (hb : b < 512) : ((s.mapped c).busmaps b).fixed = false := by
    have hwritable : (MAP_READWRITE &&& MAP_FIXED != 0) = false := by decide
    rw [hfirst b hb]
    split
    · exact hwritable
    · exact hfree b hb
  have hsecond (b : ℕ) (hb : b < 512) : ((s.mapped c).mapped d).busmaps b =
      if w / 128 ≤ b ∧ b < 64 then ⟨2, 128 * b, MAP_READABLE⟩ else (s.mapped c).busmaps b := by
    have hstamp := MapCall.stamp_eq (c := d) (hfirstFree b hb) (by simp only [← hd]; omega)
      (by simp only [← hd]; decide)
    refine hstamp.trans ?_
    have hend : (w + (WPC_RAM_SIZE - w)) / 128 = 64 := by
      simp only [WPC_RAM_SIZE]
      omega
    simp only [← hd, hend]
    split
    · congr 1
      omega
    · rfl
  have hentry (b : ℕ) (hb : b < 64) : r.entry b =
      if b < w / 128 then ⟨2, 128 * b, MAP_READWRITE⟩ else ⟨2, 128 * b, MAP_READABLE⟩ := by
    have hin : 128 * b < w ↔ b < w / 128 := by omega
    rw [Regs.entry, if_pos hb, Regs.ramEntry, hw]
    simp only [hin]
    split <;> rfl
  rw [wpcUpdateRam, run_bind_ok run_get]
  simp only [hlimit, hram, hc, hd]
  rw [run_bind_ok (mapBus_run hcaligned s)]
  by_cases hfull : w < WPC_RAM_SIZE
  · rw [if_pos hfull, mapBus_run hdaligned]
    refine ⟨_, rfl, hdevs, fun b hb => ?_, hram, hunlocked, hlockSize⟩
    refine (hsecond b hb).trans ?_
    rw [hfirst b hb]
    by_cases hlow : b < 64
    · rw [hentry b hlow]
      split_ifs <;> first | omega | rfl
    · rw [if_neg (by omega), if_neg (by simp only [WPC_RAM_SIZE] at hfull; omega)]
      exact hmaps b hb (by omega)
  · rw [if_neg hfull]
    refine ⟨_, rfl, hdevs, fun b hb => ?_, hram, hunlocked, hlockSize⟩
    refine (hfirst b hb).trans ?_
    by_cases hlow : b < 64
    · rw [hentry b hlow]
      simp only [WPC_RAM_SIZE] at hfull
      split_ifs <;> first | omega | rfl
    · simp only [WPC_RAM_SIZE] at hfull
      rw [if_neg (by omega)]
      exact hmaps b hb (by omega)

/-! ## Writes to the ASIC -/

/-- A write of the guest to an address. -/
def Regs.write (addr : ℕ) (val : U8) (r : Regs) : Regs :=
  match addr with
  | 0x3FFC => { r with bank := some val }
  | 0x3FBE => { r with low := some val }
  | 0x3FBC => { r with high := some val }
  | 0x3FFD => { r with unlocked := val }
  | 0x3FFE => { r with lockSize := val }
  | _ => r

/-- The map with the registers that decide over it, and the contents of the ROM. -/
structure RomHeld (image : ℕ → U8) (r : Regs) (s : Board Priv) : Prop where
  paged : Paged r s
  running : s.cpuRunning = true
  rom : s.mem 3 = image

variable {image : ℕ → U8}

instance : Untraced (RomHeld image r) where
  traced _ _ _ h := ⟨⟨h.paged.devices, h.paged.maps, h.paged.ramDev, h.paged.unlocked,
    h.paged.lockSize⟩, h.running, h.rom⟩

/-- The registers that do not decide over the map. -/
structure SameMap (s t : Board Priv) : Prop where
  devices : t.devices = s.devices
  busmaps : t.busmaps = s.busmaps
  ramDev : t.priv.asic.ramDev = s.priv.asic.ramDev
  unlocked : t.priv.asic.ramUnlocked = s.priv.asic.ramUnlocked
  lockSize : t.priv.asic.ramLockSize = s.priv.asic.ramLockSize
  running : t.cpuRunning = s.cpuRunning
  rom : t.mem 3 = s.mem 3

theorem RomHeld.frame (h : RomHeld image r s) {t : Board Priv} (ht : SameMap s t) :
    RomHeld image r t where
  paged := by
    refine ⟨ht.devices.trans h.paged.devices, ?_, ht.ramDev.trans h.paged.ramDev,
      ht.unlocked.trans h.paged.unlocked, ht.lockSize.trans h.paged.lockSize⟩
    rw [ht.busmaps]
    exact h.paged.maps
  running := ht.running.trans h.running
  rom := ht.rom.trans h.rom

theorem setAsic_held {f : Asic → Asic} (hf : ∀ a, (f a).ramDev = a.ramDev ∧
      (f a).ramUnlocked = a.ramUnlocked ∧ (f a).ramLockSize = a.ramLockSize) :
    Keeps (RomHeld image r) (setAsic f) :=
  ⟨fun _ h => h.frame ⟨rfl, rfl, (hf _).1, (hf _).2.1, (hf _).2.2, rfl, rfl⟩⟩

theorem lampRow_held (val : U8) : Keeps (RomHeld image r) (lampRow val) := by
  have hset (col : ℕ) : Keeps (RomHeld image r)
      (setAsic fun a => { a with lampMx := Function.update a.lampMx col val }) :=
    setAsic_held fun _ => ⟨rfl, rfl, rfl⟩
  rw [lampRow]
  infer_instance

theorem sendVisibles_held : Keeps (RomHeld image r) sendVisibles := by
  have hset (messages : List Message) : Keeps (RomHeld image r)
      (setPriv fun p => { p with sent := messages ++ p.sent }) :=
    ⟨fun _ h => h.frame ⟨rfl, rfl, rfl, rfl, rfl, rfl, rfl⟩⟩
  rw [sendVisibles]
  refine Keeps.get.seq fun s => ?_
  dsimp only
  split
  · exact hset [_, _]
  · infer_instance

theorem showPhase_held {elapsed : ℕ} {val : U8} {a b : Asic} (h : showPhase elapsed val a = some b) :
    b.ramDev = a.ramDev ∧ b.ramUnlocked = a.ramUnlocked ∧ b.ramLockSize = a.ramLockSize := by
  rw [showPhase] at h
  split at h
  · cases h
    exact ⟨rfl, rfl, rfl⟩
  · split at h
    · cases h
      exact ⟨rfl, rfl, rfl⟩
    · cases h

theorem wpcDmdSetVisible_held (val : U8) : Keeps (RomHeld image r) (wpcDmdSetVisible val) := by
  have hcount : Keeps (RomHeld image r)
      (setPriv fun p => { p with noChangeCount := p.noChangeCount + 1 }) :=
    ⟨fun _ h => h.frame ⟨rfl, rfl, rfl, rfl, rfl, rfl, rfl⟩⟩
  have hlast : Keeps (RomHeld image r) (setPriv fun p => { p with
      noChangeCount := 0
      asic := { p.asic with dmdLastVisibles := fun i =>
        if i < 3 then p.asic.dmdVisibles i else p.asic.dmdLastVisibles i } }) :=
    ⟨fun _ h => h.frame ⟨rfl, rfl, rfl, rfl, rfl, rfl, rfl⟩⟩
  have hsend : Keeps (RomHeld image r) sendVisibles := sendVisibles_held
  rw [wpcDmdSetVisible]
  refine Gives.get.seq ?_
  rintro ⟨s, hs⟩
  dsimp only
  split
  · infer_instance
  · split
    · infer_instance
    · rename_i a ha
      obtain ⟨hdev, hunlocked, hlockSize⟩ := showPhase_held ha
      have hset : Keeps (RomHeld image r)
          (setPriv fun p => { p with asic := a, lastFirqTime := p.cycles }) := by
        refine ⟨fun t ht => ⟨⟨ht.paged.devices, ht.paged.maps, hdev.trans hs.paged.ramDev,
          hunlocked.trans hs.paged.unlocked, hlockSize.trans hs.paged.lockSize⟩, ht.running, ht.rom⟩⟩
      infer_instance

theorem setAsic_run (f : Asic → Asic) (s : Board Priv) :
    setAsic f s = .ok () { s with priv := { s.priv with asic := f s.priv.asic } } := rfl

/-- Above the RAM the map does not depend on the lock registers. -/
theorem Regs.entry_congr {r r' : Regs} (hbank : r'.bank = r.bank) (hlow : r'.low = r.low)
    (hhigh : r'.high = r.high) (b : ℕ) (hb : 64 ≤ b) : r.entry b = r'.entry b := by
  have hram : ¬b < 64 := by omega
  simp only [entry, hram, if_false, hbank, hlow, hhigh]

/-- A change of the lock registers. -/
theorem wpcUpdateRam_held {s : Board Priv} (h : RomHeld image r s) {a : Asic} {r' : Regs}
    (hramDev : a.ramDev = s.priv.asic.ramDev) (hunlocked : a.ramUnlocked = r'.unlocked)
    (hlockSize : a.ramLockSize = r'.lockSize)
    (hpages : r'.bank = r.bank ∧ r'.low = r.low ∧ r'.high = r.high) :
    RomHeld image r' (finalState (wpcUpdateRam { s with priv := { s.priv with asic := a } })) := by
  obtain ⟨hbank, hlow, hhigh⟩ := hpages
  obtain ⟨maps, hrun, hpaged⟩ := wpcUpdateRam_run
    (s := { s with priv := { s.priv with asic := a } }) h.paged.devices
    (hramDev.trans h.paged.ramDev) hunlocked hlockSize (fun b hb => h.paged.free hb)
    fun b hb hge => (h.paged.maps b hb).trans (Regs.entry_congr hbank hlow hhigh b hge)
  rw [hrun]
  exact ⟨hpaged, h.running, h.rom⟩

theorem wpcSetDmdPage_run {map : ℕ} (hmap : map < 2) (val : U8) (s : Board Priv) :
    ∃ a, wpcSetDmdPage map val s = .ok () ({ s with priv := { s.priv with asic := a } }.mapped
        ⟨0x3800 + map * 0x200, 3, val.toNat * 0x200, 0x200, MAP_READWRITE⟩) ∧
      a = { s.priv.asic with dmdMaps := Function.update s.priv.asic.dmdMaps map val } := by
  have hval : val.toNat < 2 ^ 8 := val.isLt
  have haligned : (⟨0x3800 + map * 0x200, 3, val.toNat * 0x200, 0x200, MAP_READWRITE⟩ :
      MapCall).Aligned := by
    constructor <;> simp only [] <;> omega
  refine ⟨_, ?_, rfl⟩
  have hset : setAsic (fun a => { a with dmdMaps := Function.update a.dmdMaps map val }) s =
      .ok () { s with priv := { s.priv with asic := { s.priv.asic with
        dmdMaps := Function.update s.priv.asic.dmdMaps map val } } } := rfl
  rw [wpcSetDmdPage, run_bind_ok hset]
  exact mapBus_run haligned _

theorem wpcSetRomPage_run (val : U8) (s : Board Priv) : wpcSetRomPage val s =
    .ok () (s.mapped ⟨0x4000, 2, val.toNat * 0x4000, 0x4000, MAP_READABLE⟩) := by
  have hval : val.toNat < 2 ^ 8 := val.isLt
  apply mapBus_run
  constructor <;> simp only [] <;> omega

theorem Regs.write_other {reg : ℕ} {val : U8} (hbank : reg ≠ 0x3FFC) (hlow : reg ≠ 0x3FBE)
    (hhigh : reg ≠ 0x3FBC) (hunlocked : reg ≠ 0x3FFD) (hlockSize : reg ≠ 0x3FFE) :
    r.write reg val = r := by
  unfold write
  split <;> first | rfl | contradiction

/-- A write to a register of the ASIC changes the map as the registers say. -/
theorem writeRegister_held {s : Board Priv} (h : RomHeld image r s) (reg : ℕ) (val : U8) :
    RomHeld image (r.write reg val) (finalState (writeRegister reg val s)) := by
  have hset {f : Asic → Asic} (hf : ∀ a, (f a).ramDev = a.ramDev ∧
      (f a).ramUnlocked = a.ramUnlocked ∧ (f a).ramLockSize = a.ramLockSize) :
      RomHeld image r (finalState (setAsic f s)) := (setAsic_held hf).keeps s h
  unfold writeRegister
  split
  · obtain ⟨a, hrun, rfl⟩ := wpcSetDmdPage_run (show 0 < 2 by decide) val s
    have ht := hset (f := fun a => { a with dmdMaps := Function.update a.dmdMaps 0 val })
      fun _ => ⟨rfl, rfl, rfl⟩
    rw [hrun]
    exact ⟨ht.paged.dmdLow val, h.running, h.rom⟩
  · obtain ⟨a, hrun, rfl⟩ := wpcSetDmdPage_run (show 1 < 2 by decide) val s
    have ht := hset (f := fun a => { a with dmdMaps := Function.update a.dmdMaps 1 val })
      fun _ => ⟨rfl, rfl, rfl⟩
    rw [hrun]
    exact ⟨ht.paged.dmdHigh val, h.running, h.rom⟩
  · exact (wpcDmdSetVisible_held val).keeps s h
  · exact hset fun _ => ⟨rfl, rfl, rfl⟩
  · exact hset fun _ => ⟨rfl, rfl, rfl⟩
  · have ht := hset (f := fun a => { a with rombank := val }) fun _ => ⟨rfl, rfl, rfl⟩
    rw [run_bind_ok (setAsic_run _ s), wpcSetRomPage_run]
    exact ⟨ht.paged.romPage val, h.running, h.rom⟩
  · exact h.frame ⟨rfl, rfl, rfl, rfl, rfl, rfl, rfl⟩
  · rw [run_bind_ok (setAsic_run _ s)]
    exact wpcUpdateRam_held h rfl rfl h.paged.lockSize ⟨rfl, rfl, rfl⟩
  · rw [run_bind_ok (setAsic_run _ s)]
    exact wpcUpdateRam_held h rfl h.paged.unlocked rfl ⟨rfl, rfl, rfl⟩
  · exact hset fun _ => ⟨rfl, rfl, rfl⟩
  · exact hset fun _ => ⟨rfl, rfl, rfl⟩
  · exact hset fun _ => ⟨rfl, rfl, rfl⟩
  · exact (lampRow_held val).keeps s h
  · exact hset fun _ => ⟨rfl, rfl, rfl⟩
  · exact hset fun _ => ⟨rfl, rfl, rfl⟩
  · rw [Regs.write_other (by assumption) (by assumption) (by assumption) (by assumption)
      (by assumption)]
    exact h

/-! ## Accesses -/

/-- The registers after an access of the CPU. -/
def Regs.after (r : Regs) : CpuAccess → Regs
  | .write8 _ addr val => r.write addr val
  | _ => r

theorem wpcReadSwitchColumn_held (col : ℤ) : Keeps (RomHeld image r) (wpcReadSwitchColumn col) := by
  rw [wpcReadSwitchColumn]
  infer_instance

theorem wpcConsoleRead_held : Keeps (RomHeld image r) wpcConsoleRead := by
  have hinput (input : List U8) : Keeps (RomHeld image r) (setPriv fun p => { p with input := input }) :=
    ⟨fun _ h => h.frame ⟨rfl, rfl, rfl, rfl, rfl, rfl, rfl⟩⟩
  have hinited : Keeps (RomHeld image r) (setPriv fun p => { p with consoleInited := true }) :=
    ⟨fun _ h => h.frame ⟨rfl, rfl, rfl, rfl, rfl, rfl, rfl⟩⟩
  rw [wpcConsoleRead]
  refine Keeps.get.seq fun s => ?_
  split
  · split <;> infer_instance
  · infer_instance

theorem readRegister_held (reg : ℕ) : Keeps (RomHeld image r) (readRegister reg) := by
  have hcolumn (col : ℤ) : Keeps (RomHeld image r) (wpcReadSwitchColumn col) :=
    wpcReadSwitchColumn_held col
  have hconsole : Keeps (RomHeld image r) wpcConsoleRead := wpcConsoleRead_held
  unfold readRegister
  refine Keeps.get.seq fun s => ?_
  dsimp only
  split <;> infer_instance

theorem read_keeps (pc dev offset : ℕ) : Keeps (RomHeld image r) (hardware.read pc dev offset) := by
  have hram : Keeps (RomHeld image r) (ramRead dev offset) := by
    rw [ramRead]
    infer_instance
  have hasic : Keeps (RomHeld image r) (wpcAsicRead offset) := readRegister_held _
  refine Keeps.get.seq fun s => ?_
  generalize (s.devices.getD dev ⟨.null, 0⟩).cls = cls
  cases cls <;> infer_instance

theorem ramWrite_held {dev : ℕ} (hdev : dev ≠ 3) (offset : ℕ) (val : U8) :
    Keeps (RomHeld image r) (ramWrite dev offset val) := by
  have hstore : Keeps (RomHeld image r) (modify (Board.setMem dev offset val) : M Unit) := by
    refine ⟨fun s h => h.frame ⟨rfl, rfl, rfl, rfl, rfl, rfl, ?_⟩⟩
    ext1 a
    simp [Board.setMem, finalState, hdev.symm]
  rw [ramWrite]
  infer_instance

/-- The address is in a half of the display window that has been paged. -/
def Regs.RomSelected (addr : ℕ) (r : Regs) : Prop :=
  (0x3800 ≤ addr ∧ addr < 0x3A00 ∧ r.low.isSome) ∨ (0x3A00 ≤ addr ∧ addr < 0x3C00 ∧ r.high.isSome)

instance (addr : ℕ) (r : Regs) : Decidable (r.RomSelected addr) :=
  inferInstanceAs (Decidable (_ ∨ _))

theorem Regs.entry_asic {b : ℕ} (hlow : 120 ≤ b) (hhigh : b < 128) (r : Regs) :
    r.entry b = ⟨1, 128 * (b - 120), MAP_READWRITE⟩ := by
  rw [entry, if_neg (by omega), if_neg (by omega), if_neg (by omega), if_neg (by omega), if_pos hhigh]

/-- Apart from the registers, what can be written is memory, and the ROM only where it is selected. -/
theorem Regs.entry_writable {addr : ℕ} (hw : (r.entry (addr / 128)).writable = true)
    (hasic : ¬(0x3C00 ≤ addr ∧ addr < 0x4000)) (hspared : ¬r.RomSelected addr) :
    (r.entry (addr / 128)).devid = 2 ∨ (r.entry (addr / 128)).devid = 4 := by
  have hreadable : (MAP_READABLE &&& MAP_WRITABLE != 0) = false := by decide
  have hnone : (0 &&& MAP_WRITABLE != 0) = false := by decide
  have hbank (b : ℕ) : (bankEntry r.bank b).writable = false := by
    cases r.bank <;> exact hreadable
  have hdmd {half b : ℕ} {page : Option U8} (hpage : page.isSome = false) :
      (dmdEntry half page b).devid = 4 := by
    cases page with
    | none => rfl
    | some v => cases hpage
  rw [entry] at hw ⊢
  split_ifs at hw ⊢
  · exact .inl rfl
  · exact absurd (hw.symm.trans hnone) (by decide)
  · exact .inr (hdmd (by
      rw [Bool.eq_false_iff]
      exact fun hlow => hspared (.inl ⟨by omega, by omega, hlow⟩)))
  · exact .inr (hdmd (by
      rw [Bool.eq_false_iff]
      exact fun hhigh => hspared (.inr ⟨by omega, by omega, hhigh⟩)))
  · omega
  · exact absurd (hw.symm.trans (hbank _)) (by decide)
  · exact absurd (hw.symm.trans hreadable) (by decide)

theorem Regs.write_outside {addr : ℕ} (hasic : ¬(0x3C00 ≤ addr ∧ addr < 0x4000)) (val : U8) :
    r.write addr val = r :=
  write_other (by omega) (by omega) (by omega) (by omega) (by omega)

theorem Paged.attached {s : Board Priv} (h : Paged r s) {id : ℕ} (hid : id < 5) :
    s.unattached id = false := by
  have hall : ∀ id < 5, (Word.trunc 8 id == INVALID_DEVID || decide (5 ≤ Word.trunc 8 id)) = false := by
    decide
  rw [Board.unattached, h.devices]
  exact hall id hid

/-- Where a CPU access to an attached device goes. -/
theorem Paged.target_attached {s : Board Priv} (h : Paged r s) {addr : ℕ} (ha : addr < 0x10000)
    (hdev : (r.entry (addr / 128)).devid < 5) : s.target addr = ((r.entry (addr / 128)).devid,
      Word.trunc 64 ((r.entry (addr / 128)).offset + addr % 128)) := by
  have hentry : findMap s.busmaps addr = r.entry (addr / 128) := h.maps _ (by omega)
  simp only [Board.target, hentry, h.attached hdev, Bool.false_eq_true, if_false]
  rw [Word.trunc_of_lt (by omega)]

/-- A write that spares the ROM. -/
theorem RomHeld.write_final {s : Board Priv} (h : RomHeld image r s) (pc : ℕ) {addr : ℕ} (val : U8)
    (hlet : LetThrough addr s) (hspared : ¬r.RomSelected addr) {t : Board Priv}
    (ht : RomHeld image r t) : RomHeld image (r.write addr val)
      (finalState (hardware.write pc (s.target addr).1 (s.target addr).2 val t)) := by
  obtain ⟨ha, hallowed⟩ := hlet
  have hentry : findMap s.busmaps addr = r.entry (addr / 128) := h.paged.maps _ (by omega)
  have hw : (r.entry (addr / 128)).writable = true := by
    rw [← hentry]
    exact hallowed.resolve_left (by simp [h.running])
  by_cases hasic : 0x3C00 ≤ addr ∧ addr < 0x4000
  · have hblock := Regs.entry_asic (b := addr / 128) (by omega) (by omega) r
    have htarget : s.target addr = (1, addr - 0x3C00) := by
      have hplace : 128 * (addr / 128 - 120) + addr % 128 = addr - 0x3C00 := by omega
      rw [h.paged.target_attached ha (by rw [hblock]; dsimp only; decide), hblock]
      dsimp only
      rw [hplace, Word.trunc_of_lt (by omega)]
    have hreg : addr - 0x3C00 + WPC_ASIC_BASE = addr := Nat.sub_add_cancel hasic.1
    have hwrite : hardware.write pc 1 (addr - 0x3C00) val t = writeRegister addr val t := by
      have hcls : (t.devices.getD 1 ⟨.null, 0⟩).cls = .wpcAsic := by
        rw [ht.paged.devices]
        rfl
      simp only [hardware]
      rw [run_bind_ok run_get, hcls]
      exact congrArg (writeRegister · val t) hreg
    rw [htarget, hwrite]
    exact writeRegister_held ht addr val
  · have hdev := Regs.entry_writable hw hasic hspared
    rw [h.paged.target_attached ha (by omega), Regs.write_outside hasic]
    have hmemory : hardware.write pc (r.entry (addr / 128)).devid
        (Word.trunc 64 ((r.entry (addr / 128)).offset + addr % 128)) val t =
        ramWrite (r.entry (addr / 128)).devid
          (Word.trunc 64 ((r.entry (addr / 128)).offset + addr % 128)) val t := by
      simp only [hardware]
      rw [run_bind_ok run_get, ht.paged.devices]
      rcases hdev with h2 | h4
      · rw [h2]
        rfl
      · rw [h4]
        rfl
    rw [hmemory]
    exact (ramWrite_held (by omega) _ val).keeps t ht

/-- No write of the history goes to a window where its registers select the ROM. -/
def Regs.Spared : Regs → List CpuAccess → Prop
  | _, [] => True
  | r, .write8 pc addr val :: es => ¬r.RomSelected addr ∧ (r.after (.write8 pc addr val)).Spared es
  | r, _ :: es => r.Spared es

theorem RomHeld.write (h : RomHeld image r s) (pc : ℕ) {addr : ℕ} (val : U8)
    (hspared : ¬r.RomSelected addr) :
    RomHeld image (r.write addr val) (finalState (cpuWrite8 hardware pc addr val s)) := by
  refine cpuWrite8_final val (fun hdenied => ?_) fun hlet log m =>
    h.write_final pc val hlet hspared (Untraced.traced log m s h)
  by_cases hasic : 0x3C00 ≤ addr ∧ addr < 0x4000
  · have hentry : findMap s.busmaps addr = ⟨1, 128 * (addr / 128 - 120), MAP_READWRITE⟩ :=
      (h.paged.maps _ (by omega)).trans (Regs.entry_asic (by omega) (by omega) r)
    refine absurd ⟨⟨by omega, .inr ?_⟩, ?_⟩ hdenied
    · have hwritable : (MAP_READWRITE &&& MAP_WRITABLE != 0) = true := by decide
      rw [hentry]
      exact hwritable
    · rw [hentry]
      exact h.paged.attached (by dsimp only; decide)
  · rw [Regs.write_outside hasic]
    exact h

theorem RomHeld.perform (h : RomHeld image r s) {e : CpuAccess} {es : List CpuAccess}
    (hspared : r.Spared (e :: es)) :
    RomHeld image (r.after e) (finalState (e.perform hardware s)) ∧ (r.after e).Spared es := by
  have hread (pc dev offset : ℕ) : Keeps (RomHeld image r) (hardware.read pc dev offset) :=
    read_keeps pc dev offset
  cases e with
  | read8 pc addr =>
    have hkeeps := (cpuRead8_keeps (hread pc) addr).seq fun _ => Keeps.pure ()
    exact ⟨hkeeps.keeps s h, hspared⟩
  | read16 pc addr =>
    have hkeeps := (cpuRead16_keeps (hread pc) addr).seq fun _ => Keeps.pure ()
    exact ⟨hkeeps.keeps s h, hspared⟩
  | write8 pc addr val => exact ⟨h.write pc val hspared.1, hspared.2⟩

/-- The map after a run is the one of the registers that the run leaves. -/
theorem RomHeld.run {es : List CpuAccess} (h : RomHeld image r s) (hspared : r.Spared es) :
    ∃ r', RomHeld image r' (finalState (runAll (CpuAccess.perform hardware) es s)) := by
  induction es generalizing r s with
  | nil => exact ⟨r, h⟩
  | cons e es ih =>
    obtain ⟨hend, hrest⟩ := h.perform hspared
    rw [runAll]
    cases hr : e.perform hardware s with
    | ok u t =>
      rw [hr] at hend
      rw [run_bind_ok hr]
      exact ih hend hrest
    | error err t =>
      rw [hr] at hend
      rw [run_bind_error hr]
      exact ⟨_, hend⟩

theorem Regs.Spared.initial {es es' : List CpuAccess} (h : r.Spared es) (hes : es' <+: es) :
    r.Spared es' := by
  induction es' generalizing es r with
  | nil => trivial
  | cons e es' ih =>
    obtain ⟨rest, rfl⟩ := hes
    have htail : es' <+: es' ++ rest := List.prefix_append es' rest
    cases e with
    | read8 pc addr =>
      have hrest : r.Spared (es' ++ rest) := h
      exact ih hrest htail
    | read16 pc addr =>
      have hrest : r.Spared (es' ++ rest) := h
      exact ih hrest htail
    | write8 pc addr val => exact ⟨h.1, ih h.2 htail⟩

theorem romKept_of_spared (h : Paged r s) (hrunning : s.cpuRunning = true) {es : List CpuAccess}
    (hes : r.Spared es) : RomKept hardware es s := by
  have hheld : RomHeld (s.mem 3) r s := ⟨h, hrunning, rfl⟩
  intro es' hes' dev hrom a
  have hdev : dev = 3 := by
    rw [h.devices] at hrom
    rcases dev with _ | _ | _ | _ | _ | dev <;> simp [devices] at hrom ⊢
  obtain ⟨r', hend⟩ := hheld.run (hes.initial hes')
  rw [hdev, hend.rom]

/-! ## The machine started -/

/-- The mappings of `wpc_init` before the one of `wpc_update_ram`. -/
def setupCalls : List MapCall :=
  [⟨0x3C00, 1, 0, 0x400, MAP_READWRITE⟩, ⟨0x0000, 2, 0, 0x2000, MAP_READWRITE⟩,
    ⟨0x4000, 3, 0, 0x4000, MAP_READABLE⟩, ⟨0x8000, 3, 0xF8000, 0x8000, MAP_READABLE⟩,
    ⟨0x3800, 4, 0, 0x400, MAP_READWRITE⟩]

theorem setupCalls_entry : ∀ b < 512,
    (Layer.lay BusEntry.fixed (setupCalls.map MapCall.layer) initialBusmaps b).fixed = false ∧
      (64 ≤ b → Layer.lay BusEntry.fixed (setupCalls.map MapCall.layer) initialBusmaps b =
        Regs.start.entry b) := by
  decide +kernel

/-- The machine after `wpc_init`. -/
theorem wpcInit_paged (bootRom : ℕ → U8) :
    Triple (Board.Has [⟨.null, 0⟩] initialBusmaps fun _ => True) (wpcInit bootRom)
      (fun _ => Paged Regs.start) (fun _ => False) := by
  have hreset : Triple (Board.Has ([⟨.null, 0⟩] ++ [⟨.wpcAsic, 0x800⟩]) initialBusmaps fun _ => True)
      (wpcAsicReset 1) (fun _ => Board.Has [⟨.null, 0⟩, ⟨.wpcAsic, 0x800⟩] initialBusmaps
        fun p => p.asic.ramUnlocked = 0 ∧ p.asic.ramLockSize = 0) (fun _ => False) :=
    Triple.modify fun _ hs => ⟨hs.devices, hs.busmaps, rfl, rfl⟩
  apply Triple.value (deviceAttach_has (by decide) hreset)
  apply (deviceDefine_has (by decide)).bind
  intro _
  apply Triple.value (ramCreate_has (by decide))
  apply (deviceDefine_has (by decide)).bind
  intro _
  apply Triple.bind (Q := fun _ => Board.Has [⟨.null, 0⟩, ⟨.wpcAsic, 0x800⟩, ⟨.ram, 0x2000⟩]
    (Layer.lay BusEntry.fixed ((setupCalls.take 2).map MapCall.layer) initialBusmaps)
    fun p => p.asic.ramDev = 2 ∧ p.asic.ramUnlocked = 0 ∧ p.asic.ramLockSize = 0)
  · exact Triple.modify fun _ hs => ⟨hs.devices, hs.busmaps, rfl, hs.priv⟩
  intro _
  apply Triple.value (romCreate_has (by decide))
  apply (deviceDefine_has (by decide)).bind
  intro _
  apply (deviceDefine_has (by decide)).bind
  intro _
  apply Triple.value (ramCreate_has (by decide))
  apply (deviceDefine_has (by decide)).bind
  intro _
  apply Triple.bind (Q := fun _ => Board.Has devices
    (Layer.lay BusEntry.fixed (setupCalls.map MapCall.layer) initialBusmaps)
    fun p => p.asic.ramDev = 2 ∧ p.asic.ramUnlocked = 0 ∧ p.asic.ramLockSize = 0)
  · exact Triple.modify fun _ hs => ⟨hs.devices, hs.busmaps, hs.priv⟩
  intro _ s hs
  obtain ⟨hram, hunlocked, hlockSize⟩ := hs.priv
  obtain ⟨maps, hrun, hpaged⟩ := wpcUpdateRam_run (r := Regs.start) hs.devices hram hunlocked
    hlockSize (fun b hb => by rw [hs.busmaps]; exact (setupCalls_entry b hb).1)
    (fun b hb => by rw [hs.busmaps]; exact (setupCalls_entry b hb).2)
  rw [hrun]
  exact hpaged

/-- The machine initialised and the CPU started. -/
def started (bootRom : ℕ → U8) : M Unit := do
  init bootRom
  modify fun s => { s with cpuRunning := true }

theorem started_run (debug : Bool) (priv : Priv) (bootRom : ℕ → U8) :
    ∃ s, started bootRom (Board.start .wpcFault debug priv) = .ok () s ∧ Paged Regs.start s ∧
      s.cpuRunning = true := by
  have hinit := machineInit_has (S := Paged Regs.start) (wpcInit_paged bootRom) fun s hs =>
    ⟨hs.devices, hs.maps, hs.ramDev, hs.unlocked, hs.lockSize⟩
  obtain ⟨_, u, hrun, hu⟩ := hinit.total (s := Board.start .wpcFault debug priv) ⟨rfl, trivial⟩
  exact ⟨{ u with cpuRunning := true }, run_bind_ok hrun,
    ⟨hu.devices, hu.maps, hu.ramDev, hu.unlocked, hu.lockSize⟩, rfl⟩

end Exec09.Wpc
