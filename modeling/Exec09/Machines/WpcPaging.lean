import Exec09.Machines.WpcReach

/-! # The registers that page and lock on wpc

A history of writes to the five registers that decide over the map. The lock
leaves writable what its case table says, whatever came before it. The calls
that page name their device by number: the number of the ROM is taken for the
RAM and the number of the display memory for the ROM, so that a window shows
what its documentation says only until its register is written.
-/
namespace Exec09.Wpc
open Foundation Access

inductive Register
  | romBank | dmdLowPage | dmdHighPage | ramLock | ramLockSize
  deriving DecidableEq, Repr

def Register.address : Register → ℕ
  | romBank => 0x3FFC
  | dmdLowPage => 0x3FBE
  | dmdHighPage => 0x3FBC
  | ramLock => 0x3FFD
  | ramLockSize => 0x3FFE

/-- A write of the CPU to one of them. -/
structure RegWrite where
  pc : ℕ
  reg : Register
  val : U8
  deriving DecidableEq, Repr

def RegWrite.perform (w : RegWrite) : M Unit := cpuWrite8 hardware w.pc w.reg.address w.val

/-- The value that a register was last written. -/
def lastWritten (reg : Register) (ws : List RegWrite) : Option U8 :=
  (ws.findRev? fun w => w.reg = reg).map RegWrite.val

def Regs.written (ws : List RegWrite) : Regs :=
  ws.foldl (fun r w => r.write w.reg.address w.val) Regs.start

theorem lastWritten_concat (reg : Register) (ws : List RegWrite) (w : RegWrite) :
    lastWritten reg (ws ++ [w]) = if w.reg = reg then some w.val else lastWritten reg ws := by
  by_cases h : w.reg = reg
  · simp [lastWritten, List.findRev?_eq_find?_reverse, h]
  · simp [lastWritten, List.findRev?_eq_find?_reverse, h]

theorem Regs.written_concat (ws : List RegWrite) (w : RegWrite) :
    written (ws ++ [w]) = (written ws).write w.reg.address w.val := by
  rw [written, List.foldl_append]
  rfl

/-- The registers hold what was last written to them. -/
theorem Regs.written_eq (ws : List RegWrite) : written ws =
    ⟨(lastWritten .ramLock ws).getD 0, (lastWritten .ramLockSize ws).getD 0,
      lastWritten .romBank ws, lastWritten .dmdLowPage ws, lastWritten .dmdHighPage ws⟩ := by
  induction ws using List.reverseRecOn with
  | nil => rfl
  | append_singleton ws w ih =>
    rw [written_concat, ih]
    simp only [lastWritten_concat]
    rcases w with ⟨pc, reg, val⟩
    cases reg <;> rfl

theorem lastWritten_eq_none_iff {reg : Register} {ws : List RegWrite} :
    lastWritten reg ws = none ↔ ∀ w ∈ ws, w.reg ≠ reg := by
  simp [lastWritten, List.findRev?_eq_find?_reverse]

/-! ## The history -/

variable {image : ℕ → U8} {r : Regs} {s : Board Priv}

theorem Register.address_asic (reg : Register) : 0x3C00 ≤ reg.address ∧ reg.address < 0x4000 := by
  cases reg <;> decide

theorem writeRegister_ok (h : RomHeld image r s) (reg : Register) (val : U8) :
    ∃ t, writeRegister reg.address val s = .ok () t := by
  have hunlock (a : Asic) (r' : Regs) (hdev : a.ramDev = s.priv.asic.ramDev)
      (hunlocked : a.ramUnlocked = r'.unlocked) (hlockSize : a.ramLockSize = r'.lockSize)
      (hpages : r'.bank = r.bank ∧ r'.low = r.low ∧ r'.high = r.high) :
      ∃ t, wpcUpdateRam { s with priv := { s.priv with asic := a } } = .ok () t := by
    obtain ⟨hbank, hlow, hhigh⟩ := hpages
    obtain ⟨maps, hrun, -⟩ := wpcUpdateRam_run
      (s := { s with priv := { s.priv with asic := a } }) h.paged.devices
      (hdev.trans h.paged.ramDev) hunlocked hlockSize (fun b hb => h.paged.free hb)
      fun b hb hge => (h.paged.maps b hb).trans (Regs.entry_congr hbank hlow hhigh b hge)
    exact ⟨_, hrun⟩
  cases reg with
  | romBank =>
    have hpage := wpcSetRomPage_run val
      { s with priv := { s.priv with asic := { s.priv.asic with rombank := val } } }
    exact ⟨_, (run_bind_ok (setAsic_run _ s)).trans hpage⟩
  | dmdLowPage =>
    obtain ⟨a, hrun, -⟩ := wpcSetDmdPage_run (show 0 < 2 by decide) val s
    exact ⟨_, hrun⟩
  | dmdHighPage =>
    obtain ⟨a, hrun, -⟩ := wpcSetDmdPage_run (show 1 < 2 by decide) val s
    exact ⟨_, hrun⟩
  | ramLock =>
    obtain ⟨t, ht⟩ := hunlock { s.priv.asic with ramUnlocked := val }
      { r with unlocked := val } rfl rfl h.paged.lockSize ⟨rfl, rfl, rfl⟩
    exact ⟨t, (run_bind_ok (setAsic_run _ s)).trans ht⟩
  | ramLockSize =>
    obtain ⟨t, ht⟩ := hunlock { s.priv.asic with ramLockSize := val }
      { r with lockSize := val } rfl h.paged.unlocked rfl ⟨rfl, rfl, rfl⟩
    exact ⟨t, (run_bind_ok (setAsic_run _ s)).trans ht⟩

/-- Where an address of the CPU leads. -/
theorem RomHeld.resolve_eq (h : RomHeld image r s) {addr : ℕ} (ha : addr < 0x10000) :
    resolve s.busmaps addr = (r.entry (addr / 128)).resolution addr := by
  rw [resolve, findMap, h.paged.maps _ (by omega)]

theorem RomHeld.perform_ok (h : RomHeld image r s) (w : RegWrite) :
    ∃ t, w.perform s = .ok () t ∧ RomHeld image (r.write w.reg.address w.val) t := by
  obtain ⟨hlow, hhigh⟩ := w.reg.address_asic
  have hspared : ¬r.RomSelected w.reg.address := by
    rintro (⟨_, hlt, _⟩ | ⟨_, hlt, _⟩) <;> omega
  have hend := h.write w.pc w.val hspared
  have hentry := Regs.entry_asic (b := w.reg.address / 128) (by omega) (by omega) r
  have hresolved : resolve s.busmaps w.reg.address =
      ⟨1, w.reg.address - WPC_ASIC_BASE, MAP_READWRITE⟩ := by
    have hplace : 128 * (w.reg.address / 128 - 120) + w.reg.address % 128 =
        w.reg.address - WPC_ASIC_BASE := by
      rw [WPC_ASIC_BASE]
      omega
    rw [h.resolve_eq (by omega), hentry, BusEntry.resolution]
    simp only [hplace]
    rw [Word.trunc_of_lt (by omega)]
  have hwritable : MAP_READWRITE &&& MAP_WRITABLE ≠ 0 := by decide
  obtain ⟨e, hrun⟩ := cpuWrite8_resolved hardware w.pc (by omega) w.val hresolved
    (h.paged.attached (by dsimp only; decide)) (.inr hwritable)
  have hasic : hardware.write w.pc (Word.trunc 8 1) (w.reg.address - WPC_ASIC_BASE) w.val s =
      writeRegister w.reg.address w.val s := by
    have hreg : w.reg.address - WPC_ASIC_BASE + WPC_ASIC_BASE = w.reg.address :=
      Nat.sub_add_cancel hlow
    have hcls : (s.devices.getD (Word.trunc 8 1) ⟨.null, 0⟩).cls = .wpcAsic := by
      rw [h.paged.devices]
      rfl
    simp only [hardware]
    rw [run_bind_ok run_get, hcls]
    exact congrArg (writeRegister · w.val s) hreg
  obtain ⟨t, ht⟩ := writeRegister_ok h w.reg w.val
  have hok : w.perform s = .ok () (t.record e) :=
    hrun.trans (run_bind_ok (hasic.trans ht))
  refine ⟨t.record e, hok, ?_⟩
  have hfinal : finalState (w.perform s) = t.record e := by rw [hok]; rfl
  rw [← hfinal]
  exact hend

theorem RomHeld.runAll_ok (h : RomHeld image r s) (ws : List RegWrite) :
    ∃ t, runAll RegWrite.perform ws s = .ok () t ∧
      RomHeld image (ws.foldl (fun r w => r.write w.reg.address w.val) r) t := by
  induction ws generalizing r s with
  | nil => exact ⟨s, rfl, h⟩
  | cons w ws ih =>
    obtain ⟨t, hstep, ht⟩ := h.perform_ok w
    obtain ⟨u, hrest, hu⟩ := ih ht
    exact ⟨u, (run_bind_ok hstep).trans hrest, hu⟩

/-- The machine started, and then the writes. -/
def afterWrites (bootRom : ℕ → U8) (ws : List RegWrite) : M Unit := do
  started bootRom
  runAll RegWrite.perform ws

theorem afterWrites_run (debug : Bool) (priv : Priv) (bootRom : ℕ → U8) (ws : List RegWrite) :
    ∃ s image, afterWrites bootRom ws (Board.start .wpcFault debug priv) = .ok () s ∧
      RomHeld image (Regs.written ws) s := by
  obtain ⟨u, hstart, hpaged, hrunning⟩ := started_run debug priv bootRom
  have hu : RomHeld (u.mem 3) Regs.start u := ⟨hpaged, hrunning, rfl⟩
  obtain ⟨s, hrun, hs⟩ := hu.runAll_ok ws
  exact ⟨s, u.mem 3, (run_bind_ok hstart).trans hrun, hs⟩

/-! ## Reads and writes of memory -/

def Memory (dev : ℕ) : Prop := dev = 2 ∨ dev = 3 ∨ dev = 4

theorem hardware_read (hdevs : s.devices = devices) {dev : ℕ} (hdev : Memory dev) (pc offset : ℕ) :
    hardware.read pc dev offset s = ramRead dev offset s := by
  simp only [hardware]
  rw [run_bind_ok run_get, hdevs]
  rcases hdev with rfl | rfl | rfl <;> rfl

theorem hardware_write (hdevs : s.devices = devices) {dev : ℕ} (hdev : Memory dev) (pc offset : ℕ)
    (val : U8) : hardware.write pc dev offset val s = ramWrite dev offset val s := by
  simp only [hardware]
  rw [run_bind_ok run_get, hdevs]
  rcases hdev with rfl | rfl | rfl <;> rfl

/-- The entry leads an address to a place in the buffer of a memory device. -/
structure Leads (e : BusEntry) (addr dev place : ℕ) : Prop where
  devid : e.devid = dev
  memory : Memory dev
  lands : e.offset + addr % 128 = place
  bound : place < 2 ^ 64

theorem RomHeld.leads_resolve (h : RomHeld image r s) {addr dev place : ℕ} (ha : addr < 0x10000)
    (hleads : Leads (r.entry (addr / 128)) addr dev place) :
    resolve s.busmaps addr = ⟨dev, place, (r.entry (addr / 128)).flags⟩ := by
  rw [h.resolve_eq ha, BusEntry.resolution, hleads.devid, hleads.lands,
    Word.trunc_of_lt hleads.bound]

theorem Memory.trunc {dev : ℕ} (h : Memory dev) : Word.trunc 8 dev = dev := by
  rcases h with rfl | rfl | rfl <;> rfl

theorem Memory.attached {dev : ℕ} (hdev : Memory dev) (h : Paged r s) :
    s.unattached dev = false := by
  apply h.attached
  rcases hdev with rfl | rfl | rfl <;> decide

theorem RomHeld.read_leads (h : RomHeld image r s) {addr dev place : ℕ} (ha : addr < 0x10000)
    (hleads : Leads (r.entry (addr / 128)) addr dev place)
    (hreadable : (r.entry (addr / 128)).flags &&& MAP_READABLE ≠ 0) (pc : ℕ) :
    ∃ e, cpuRead8 hardware pc addr s = ramRead dev place (s.record e) := by
  obtain ⟨e, hrun⟩ := cpuRead8_resolved hardware pc ha (h.leads_resolve ha hleads)
    (hleads.memory.attached h.paged) hreadable
  refine ⟨e, hrun.trans ?_⟩
  rw [hleads.memory.trunc]
  have hdevs : (s.record e).devices = devices := h.paged.devices
  exact hardware_read hdevs hleads.memory pc place

theorem RomHeld.write_leads (h : RomHeld image r s) {addr dev place : ℕ} (ha : addr < 0x10000)
    (hleads : Leads (r.entry (addr / 128)) addr dev place)
    (hwritable : (r.entry (addr / 128)).flags &&& MAP_WRITABLE ≠ 0) (pc : ℕ) (val : U8)
    (hsize : place < s.size dev) :
    (finalState (cpuWrite8 hardware pc addr val s)).mem = (s.setMem dev place val).mem := by
  obtain ⟨e, hrun⟩ := cpuWrite8_resolved hardware pc ha val (h.leads_resolve ha hleads)
    (hleads.memory.attached h.paged) (.inr hwritable)
  have hwrite : hardware.write pc (Word.trunc 8 dev) place val s = .ok () (s.setMem dev place val) := by
    rw [hleads.memory.trunc, hardware_write h.paged.devices hleads.memory, ramWrite,
      run_bind_ok run_get, if_pos hsize]
    rfl
  rw [hrun, run_bind_ok hwrite]
  rfl

theorem RomHeld.write_denied (h : RomHeld image r s) {addr dev place : ℕ} (ha : addr < 0x10000)
    (hleads : Leads (r.entry (addr / 128)) addr dev place)
    (hdenied : (r.entry (addr / 128)).flags &&& MAP_WRITABLE = 0) (pc : ℕ) (val : U8) :
    (finalState (cpuWrite8 hardware pc addr val s)).mem = s.mem := by
  obtain ⟨log, m, hrun⟩ := cpuWrite8_denied hardware pc ha val (h.leads_resolve ha hleads)
    (hleads.memory.attached h.paged) h.running hdenied
  rw [hrun]

theorem Paged.size (h : Paged r s) (dev : ℕ) : s.size dev = (Wpc.devices.getD dev ⟨.null, 0⟩).size := by
  rw [Board.size, h.devices]

/-! ## The lock -/

/-- How many bytes at the end of the RAM a lock size is to protect. -/
def protectedSize (lockSize : U8) : ℕ :=
  match lockSize.toNat with
  | 0xF => 256
  | 0x7 => 512
  | 0x3 => 1024
  | 0x1 => 2048
  | 0 => 4096
  | _ => 0

theorem sizeWritable_eq (unlocked lockSize : U8) : sizeWritable unlocked lockSize =
    if unlocked = 0 then
      if lockSize = 7 then 0x1A00 else WPC_RAM_SIZE - protectedSize lockSize
    else WPC_RAM_SIZE := by
  by_cases hlocked : unlocked = 0
  · have hall : ∀ size : U8, sizeWritable 0 size =
        if size = 7 then 0x1A00 else WPC_RAM_SIZE - protectedSize size := by decide
    rw [hlocked, if_pos rfl]
    exact hall lockSize
  · rw [sizeWritable, if_neg hlocked, if_neg hlocked]

theorem Regs.ram_leads (r : Regs) {a : ℕ} (ha : a < 0x2000) : Leads (r.entry (a / 128)) a 2 a := by
  have hentry : r.entry (a / 128) = r.ramEntry (a / 128) := by
    rw [entry, if_pos (by omega)]
  rw [hentry, ramEntry]
  refine ⟨rfl, .inl rfl, ?_, by omega⟩
  dsimp only
  omega

/-- A byte of the RAM can be written below the limit. -/
theorem Regs.ram_writable (r : Regs) {a : ℕ} (ha : a < 0x2000) :
    (r.entry (a / 128)).flags &&& MAP_WRITABLE ≠ 0 ↔ a < r.limit := by
  have hcases := r.limit_cases
  have hblock : 128 * (a / 128) < r.limit ↔ a < r.limit := by omega
  have hwritable : MAP_READWRITE &&& MAP_WRITABLE ≠ 0 := by decide
  have hreadable : ¬MAP_READABLE &&& MAP_WRITABLE ≠ 0 := by decide
  rw [entry, if_pos (by omega), ramEntry]
  simp only [hblock]
  by_cases hlt : a < r.limit
  · rw [if_pos hlt]
    exact iff_of_true hwritable hlt
  · rw [if_neg hlt]
    exact iff_of_false hreadable hlt

theorem RomHeld.ram_changes (h : RomHeld image r s) {a : ℕ} (ha : a < 0x2000) (pc : ℕ) {val : U8}
    (hval : val ≠ s.mem 2 a) :
    (finalState (cpuWrite8 hardware pc a val s)).mem 2 a = val ↔ a < r.limit := by
  by_cases hlt : a < r.limit
  · have hsize : a < s.size 2 := by
      rw [h.paged.size]
      exact ha
    rw [h.write_leads (by omega) (r.ram_leads ha) ((r.ram_writable ha).mpr hlt) pc val hsize]
    simp [Board.setMem, hlt]
  · have hdenied : (r.entry (a / 128)).flags &&& MAP_WRITABLE = 0 :=
      not_not.mp fun hw => hlt ((r.ram_writable ha).mp hw)
    rw [h.write_denied (by omega) (r.ram_leads ha) hdenied pc val]
    exact iff_of_false hval.symm hlt

/-- Whatever was written to the registers before, a write to the RAM does what the last lock and
the last size are to let it do, unless it goes to the kilobyte that the size 7 protects beyond
its 512 bytes. -/
theorem ramLock_right_iff (debug : Bool) (priv : Priv) (bootRom : ℕ → U8) (ws : List RegWrite) :
    ∃ s, afterWrites bootRom ws (Board.start .wpcFault debug priv) = .ok () s ∧
      ∀ pc a, a < 0x2000 → ∀ val, val ≠ s.mem 2 a →
        (((finalState (cpuWrite8 hardware pc a val s)).mem 2 a = val ↔
            (lastWritten .ramLock ws).getD 0 ≠ 0 ∨
              a < 0x2000 - protectedSize ((lastWritten .ramLockSize ws).getD 0)) ↔
          (lastWritten .ramLock ws).getD 0 ≠ 0 ∨ (lastWritten .ramLockSize ws).getD 0 ≠ 7 ∨
            a < 0x1A00 ∨ 0x1E00 ≤ a) := by
  obtain ⟨s, image, hrun, hs⟩ := afterWrites_run debug priv bootRom ws
  refine ⟨s, hrun, fun pc a ha val hval => ?_⟩
  rw [hs.ram_changes ha pc hval, Regs.limit, sizeWritable_eq, Regs.written_eq]
  dsimp only
  generalize (lastWritten .ramLock ws).getD 0 = lock
  generalize (lastWritten .ramLockSize ws).getD 0 = size
  have hram : WPC_RAM_SIZE = 0x2000 := rfl
  by_cases hlock : lock = 0
  · rw [if_pos hlock]
    by_cases hsize : size = 7
    · have hprotected : protectedSize 7 = 512 := rfl
      rw [if_pos hsize, hsize, hprotected]
      simp only [hlock, ne_eq, not_true_eq_false, false_or]
      omega
    · rw [if_neg hsize, hram]
      exact iff_of_true (by simp only [hlock, ne_eq, not_true_eq_false, false_or])
        (.inr (.inl hsize))
  · rw [if_neg hlock, hram]
    exact iff_of_true (iff_of_true ha (.inl hlock)) (.inl hlock)

/-- The globals when the program starts. -/
def Priv.start : Priv where
  asic := Asic.zero
  consoleInited := false
  input := []
  output := []
  cycles := 0
  lastFirqTime := 0
  noChangeCount := 0
  sent := []

/-- The RAM locked with size 7: the byte at 0x1A00 is below the 512 bytes, and does not change. -/
theorem ramLock_kilobyte : ∃ s,
    afterWrites (fun _ => 0) [⟨0, .ramLockSize, 7⟩] (Board.start .wpcFault false Priv.start) =
      .ok () s ∧
    ∃ val, val ≠ s.mem 2 0x1A00 ∧
      ¬((finalState (cpuWrite8 hardware 0 0x1A00 val s)).mem 2 0x1A00 = val ↔
        (lastWritten .ramLock [⟨0, .ramLockSize, 7⟩]).getD 0 ≠ 0 ∨
          0x1A00 < 0x2000 - protectedSize ((lastWritten .ramLockSize
            [⟨0, .ramLockSize, 7⟩]).getD 0)) := by
  obtain ⟨s, image, hrun, hs⟩ :=
    afterWrites_run false Priv.start (fun _ => 0) [⟨0, .ramLockSize, 7⟩]
  have hne : s.mem 2 0x1A00 + 1 ≠ s.mem 2 0x1A00 := by simp
  refine ⟨s, hrun, s.mem 2 0x1A00 + 1, hne, ?_⟩
  rw [hs.ram_changes (by decide) 0 hne]
  decide

/-! ## The windows -/

/-- The ROM window shows a bank. -/
def BankShown (bank : U8) (s : Board Priv) : Prop :=
  ∀ pc i, i < 0x4000 → ∃ t,
    cpuRead8 hardware pc (0x4000 + i) s = .ok (s.mem 3 (bank.toNat * 0x4000 + i)) t

/-- A half of the display window, from `base` on, gives access to a page of the display memory. -/
def PageShown (base : ℕ) (page : U8) (s : Board Priv) : Prop :=
  ∀ pc j, j < 0x200 →
    (∃ t, cpuRead8 hardware pc (base + j) s = .ok (s.mem 4 (0x200 * page.toNat + j)) t) ∧
    ∀ val, (finalState (cpuWrite8 hardware pc (base + j) val s)).mem 4 (0x200 * page.toNat + j) = val

theorem RomHeld.bank_shown (h : RomHeld image r s) (hbank : r.bank = none) : BankShown 0 s := by
  intro pc i hi
  have hentry : r.entry ((0x4000 + i) / 128) = ⟨3, 128 * ((0x4000 + i) / 128 - 128), MAP_READABLE⟩ := by
    rw [Regs.entry, if_neg (by omega), if_neg (by omega), if_neg (by omega), if_neg (by omega),
      if_neg (by omega), if_pos (by omega), hbank, Regs.bankEntry]
  have hleads : Leads (r.entry ((0x4000 + i) / 128)) (0x4000 + i) 3 i := by
    rw [hentry]
    exact ⟨rfl, .inr (.inl rfl), by dsimp only; omega, by omega⟩
  have hreadable : (r.entry ((0x4000 + i) / 128)).flags &&& MAP_READABLE ≠ 0 := by
    have hflags : MAP_READABLE &&& MAP_READABLE ≠ 0 := by decide
    rw [hentry]
    exact hflags
  obtain ⟨e, hrun⟩ := h.read_leads (by omega) hleads hreadable pc
  have hsize : i < (s.record e).size 3 := by
    rw [Board.size]
    change i < s.size 3
    rw [h.paged.size]
    exact hi.trans (by decide)
  have hplace : (0 : U8).toNat * 0x4000 + i = i := by simp
  refine ⟨s.record e, ?_⟩
  rw [hrun, ramRead, run_bind_ok run_get, if_pos hsize, hplace]
  rfl

/-- Once a bank is selected, the last byte of the window lies behind the RAM. -/
theorem RomHeld.bank_lost (h : RomHeld image r s) {v : U8} (hbank : r.bank = some v) (bank : U8) :
    ¬BankShown bank s := by
  intro hshown
  obtain ⟨t, hread⟩ := hshown 0 0x3FFF (by decide)
  have hv : v.toNat < 2 ^ 8 := v.isLt
  have hentry : r.entry ((0x4000 + 0x3FFF) / 128) = ⟨2, v.toNat * 0x4000 + 128 * 127, MAP_READABLE⟩ := by
    rw [Regs.entry, if_neg (by decide), if_neg (by decide), if_neg (by decide), if_neg (by decide),
      if_neg (by decide), if_pos (by decide), hbank, Regs.bankEntry]
  have hleads : Leads (r.entry ((0x4000 + 0x3FFF) / 128)) (0x4000 + 0x3FFF) 2
      (v.toNat * 0x4000 + 0x3FFF) := by
    rw [hentry]
    exact ⟨rfl, .inl rfl, by dsimp only, by omega⟩
  have hreadable : (r.entry ((0x4000 + 0x3FFF) / 128)).flags &&& MAP_READABLE ≠ 0 := by
    have hflags : MAP_READABLE &&& MAP_READABLE ≠ 0 := by decide
    rw [hentry]
    exact hflags
  obtain ⟨e, hrun⟩ := h.read_leads (by decide) hleads hreadable 0
  have hsize : ¬v.toNat * 0x4000 + 0x3FFF < (s.record e).size 2 := by
    have hram : (s.record e).size 2 = 0x2000 := h.paged.size 2
    omega
  rw [hrun, ramRead, run_bind_ok run_get, if_neg hsize] at hread
  cases hread

theorem Regs.dmd_entry (r : Regs) {half j : ℕ} (hhalf : half < 2) (hj : j < 0x200) :
    r.entry ((0x3800 + 0x200 * half + j) / 128) =
      dmdEntry half (if half = 0 then r.low else r.high) (j / 128) := by
  have hblock : (0x3800 + 0x200 * half + j) / 128 = 112 + 4 * half + j / 128 := by omega
  rw [entry, if_neg (by omega), if_neg (by omega), hblock]
  by_cases hzero : half = 0
  · subst hzero
    rw [if_pos (by omega), if_pos rfl]
    congr 1
    omega
  · have hone : half = 1 := by omega
    subst hone
    rw [if_neg (by omega), if_pos (by omega), if_neg (by decide)]
    congr 1
    omega

/-- Once a page is selected, a write to the window changes the ROM. -/
theorem RomHeld.page_lost (h : RomHeld image r s) {half : ℕ} (hhalf : half < 2) {v : U8}
    (hpage : (if half = 0 then r.low else r.high) = some v) (page : U8) :
    ¬PageShown (0x3800 + 0x200 * half) page s := by
  intro hshown
  have hv : v.toNat < 2 ^ 8 := v.isLt
  have hentry := r.dmd_entry hhalf (show 0 < 0x200 by decide)
  rw [hpage, Regs.dmdEntry] at hentry
  have hleads : Leads (r.entry ((0x3800 + 0x200 * half + 0) / 128)) (0x3800 + 0x200 * half + 0) 3
      (v.toNat * 0x200) := by
    rw [hentry]
    exact ⟨rfl, .inr (.inl rfl), by dsimp only; omega, by omega⟩
  have hwritable : (r.entry ((0x3800 + 0x200 * half + 0) / 128)).flags &&& MAP_WRITABLE ≠ 0 := by
    have hflags : MAP_READWRITE &&& MAP_WRITABLE ≠ 0 := by decide
    rw [hentry]
    exact hflags
  have hsize : v.toNat * 0x200 < s.size 3 := by
    have hrom : s.size 3 = 0x100000 := h.paged.size 3
    omega
  have hne : s.mem 4 (0x200 * page.toNat + 0) + 1 ≠ s.mem 4 (0x200 * page.toNat + 0) := by simp
  have hwrite := (hshown 0 0 (by decide)).2 (s.mem 4 (0x200 * page.toNat + 0) + 1)
  rw [h.write_leads (by omega) hleads hwritable 0 _ hsize] at hwrite
  exact hne hwrite.symm

/-- A window shows what it is to show exactly as long as its register is not written. -/
theorem windows_right_iff (debug : Bool) (priv : Priv) (bootRom : ℕ → U8) (ws : List RegWrite) :
    ∃ s, afterWrites bootRom ws (Board.start .wpcFault debug priv) = .ok () s ∧
      (BankShown ((lastWritten .romBank ws).getD 0) s ↔ ∀ w ∈ ws, w.reg ≠ .romBank) ∧
      ((∀ page, lastWritten .dmdLowPage ws = some page → PageShown 0x3800 page s) ↔
        ∀ w ∈ ws, w.reg ≠ .dmdLowPage) ∧
      ((∀ page, lastWritten .dmdHighPage ws = some page → PageShown 0x3A00 page s) ↔
        ∀ w ∈ ws, w.reg ≠ .dmdHighPage) := by
  obtain ⟨s, image, hrun, hs⟩ := afterWrites_run debug priv bootRom ws
  rw [Regs.written_eq] at hs
  simp only [← lastWritten_eq_none_iff]
  have hdmd (half : ℕ) (hhalf : half < 2) {reg : Register}
      (hreg : (if half = 0 then lastWritten .dmdLowPage ws else lastWritten .dmdHighPage ws) =
        lastWritten reg ws) :
      (∀ page, lastWritten reg ws = some page → PageShown (0x3800 + 0x200 * half) page s) ↔
        lastWritten reg ws = none := by
    constructor
    · intro hshown
      cases hlast : lastWritten reg ws with
      | none => rfl
      | some page => exact absurd (hshown page hlast) (hs.page_lost hhalf (hreg.trans hlast) page)
    · rintro hnone page hlast
      rw [hnone] at hlast
      cases hlast
  refine ⟨s, hrun, ⟨fun hshown => ?_, fun hnone => ?_⟩, hdmd 0 (by decide) rfl, hdmd 1 (by decide) rfl⟩
  · cases hlast : lastWritten .romBank ws with
    | none => rfl
    | some v => exact absurd hshown (hs.bank_lost hlast _)
  · rw [hnone]
    exact hs.bank_shown hnone

/-- Bank 1 selected: the ROM window does not show it. -/
theorem bank_not_shown : ∃ s,
    afterWrites (fun _ => 0) [⟨0, .romBank, 1⟩] (Board.start .wpcFault false Priv.start) =
      .ok () s ∧ lastWritten .romBank [⟨0, .romBank, 1⟩] = some 1 ∧ ¬BankShown 1 s := by
  obtain ⟨s, image, hrun, hs⟩ :=
    afterWrites_run false Priv.start (fun _ => 0) [⟨0, .romBank, 1⟩]
  exact ⟨s, hrun, rfl, hs.bank_lost rfl 1⟩

end Exec09.Wpc
