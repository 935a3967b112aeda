import Exec09.Cpu.StoreHistory
import Exec09.Debugger.CodeView
import Exec09.Foundation.Translated
import Exec09.Machines.WpcBounds
import Exec09.Machines.WpcPaging
import Exec09.Machines.WpcSwitches

/-! # The memory that a program on wpc sees

A program pages its windows and locks its RAM as it goes. Whatever the processor,
the keyboard and the clock do, a read outside the ASIC gets what was last stored
at the place that serves its address, and a store that the lock does not let
through has never happened.
-/
namespace Exec09.Wpc
open Foundation Access

variable {r r₀ : Regs} {c : ℕ → ℕ → U8} {c₀ : ℕ × ℕ → U8} {l : List (ℕ × U8)} {s : Board Priv}

/-- Where the registers lead an address. -/
def Regs.served (a : ℕ) (r : Regs) : ℕ × ℕ :=
  ((r.entry (a / 128)).devid, (r.entry (a / 128)).offset + a % 128)

def Asics (a : ℕ) : Prop := 0x3C00 ≤ a ∧ a < 0x4000

instance (a : ℕ) : Decidable (Asics a) := inferInstanceAs (Decidable (_ ∧ _))

/-- A store at the address changes a byte. -/
def Regs.Takes (a : ℕ) (r : Regs) : Prop :=
  a < 0x10000 ∧ ¬Asics a ∧ (r.entry (a / 128)).writable = true

instance (a : ℕ) (r : Regs) : Decidable (r.Takes a) := inferInstanceAs (Decidable (_ ∧ _))

/-- Stores as a program sees them: five registers of the ASIC, and the memory that the map lets
writes through to. -/
def windows : Translation Regs ℕ U8 (ℕ × ℕ) where
  control a v r := r.write a v
  place r a := if r.Takes a then some (r.served a) else none

theorem Regs.Takes.memory {a : ℕ} (h : r.Takes a) : Memory (r.served a).1 := by
  obtain ⟨ha, hasic, hw⟩ := h
  have hreadable : (MAP_READABLE &&& MAP_WRITABLE != 0) = false := by decide
  have hnone : (0 &&& MAP_WRITABLE != 0) = false := by decide
  have hbank (b : ℕ) : (bankEntry r.bank b).writable = false := by
    cases r.bank <;> exact hreadable
  have hdmd (half b : ℕ) (page : Option U8) : Memory (dmdEntry half page b).devid := by
    cases page with
    | none => exact .inr (.inr rfl)
    | some v => exact .inr (.inl rfl)
  rw [Asics] at hasic
  rw [served]
  dsimp only
  rw [entry] at hw ⊢
  split_ifs at hw ⊢
  · exact .inl rfl
  · exact absurd (hw.symm.trans hnone) (by decide)
  · exact hdmd _ _ _
  · exact hdmd _ _ _
  · omega
  · exact absurd (hw.symm.trans (hbank _)) (by decide)
  · exact absurd (hw.symm.trans hreadable) (by decide)

/-- The windows that can be written lie within the memory behind them. -/
theorem Regs.Takes.inside {a : ℕ} (h : r.Takes a) :
    (r.served a).2 < (devices.getD (r.served a).1 ⟨.null, 0⟩).size := by
  have hmemory := h.memory
  obtain ⟨ha, -, hw⟩ := h
  have hnot : ¬Flat.Behind devices (r.served a).1 ((r.served a).2 + 0) := by
    intro hbehind
    rcases (r.entry_behind ha (by decide)).mp hbehind with ⟨v, -, hlow, hhigh, -⟩ | ⟨hzero, -⟩
    · exact absurd ((r.entry_window hlow hhigh).symm.trans hw) (by decide)
    · cases hzero
  rw [behind_iff] at hnot
  generalize (r.served a).1 = dev at hmemory hnot ⊢
  rcases hmemory with rfl | rfl | rfl
  all_goals
    simp only [devices, List.getD_cons_succ, List.getD_cons_zero]
    omega

/-! ## The registers change no memory -/

/-- The bytes behind the devices. -/
def Contents (c : ℕ → ℕ → U8) (s : Board Priv) : Prop := s.mem = c

instance : Untraced (Contents c) := ⟨fun _ _ _ h => h⟩

instance setPriv_contents (f : Priv → Priv) : Keeps (Contents c) (setPriv f) := ⟨fun _ h => h⟩

instance setAsic_contents (f : Asic → Asic) : Keeps (Contents c) (setAsic f) := ⟨fun _ h => h⟩

instance mapBus_contents (call : MapCall) : Keeps (Contents c) (mapBus call : M Unit) := by
  have hset (maps : ℕ → BusEntry) : Keeps (Contents c)
      (modify fun s => { s with busmaps := maps } : M Unit) := ⟨fun _ h => h⟩
  rw [mapBus]
  refine Keeps.get.seq fun s => ?_
  split <;> infer_instance

instance column_contents (col : ℤ) : Keeps (Contents c) (wpcReadSwitchColumn col) := by
  rw [wpcReadSwitchColumn]
  infer_instance

instance visible_contents (val : U8) : Keeps (Contents c) (wpcDmdSetVisible val) := by
  have hsend : Keeps (Contents c) sendVisibles := by
    rw [sendVisibles]
    infer_instance
  rw [wpcDmdSetVisible]
  refine Keeps.get.seq fun s => ?_
  dsimp only
  split
  · infer_instance
  · split <;> infer_instance

instance ram_contents : Keeps (Contents c) wpcUpdateRam := by
  rw [wpcUpdateRam]
  infer_instance

theorem readRegister_contents (reg : ℕ) : Keeps (Contents c) (readRegister reg) := by
  have hconsole : Keeps (Contents c) wpcConsoleRead := by
    rw [wpcConsoleRead]
    refine Keeps.get.seq fun s => ?_
    split
    · split <;> infer_instance
    · infer_instance
  unfold readRegister
  refine Keeps.get.seq fun s => ?_
  dsimp only
  split <;> infer_instance

theorem writeRegister_contents (reg : ℕ) (val : U8) : Keeps (Contents c) (writeRegister reg val) := by
  have hpage (map : ℕ) : Keeps (Contents c) (wpcSetDmdPage map val) := by
    rw [wpcSetDmdPage]
    infer_instance
  have hrom : Keeps (Contents c) (wpcSetRomPage val) := mapBus_contents _
  have hlamp : Keeps (Contents c) (lampRow val) := by
    rw [lampRow]
    infer_instance
  have hconsole : Keeps (Contents c) (wpcConsoleWrite val) := setPriv_contents _
  unfold writeRegister
  split <;> infer_instance

theorem read_contents (pc dev offset : ℕ) : Keeps (Contents c) (hardware.read pc dev offset) := by
  have hram : Keeps (Contents c) (ramRead dev offset) := by
    rw [ramRead]
    infer_instance
  have hasic : Keeps (Contents c) (wpcAsicRead offset) := readRegister_contents _
  refine Keeps.get.seq fun s => ?_
  generalize (s.devices.getD dev ⟨.null, 0⟩).cls = cls
  cases cls <;> infer_instance

/-! ## The board after some stores -/

theorem Paged.asic_write (h : Paged r s) {a : ℕ} (hasic : Asics a) (pc : ℕ) (v : U8) :
    hardware.write pc (s.target a).1 (s.target a).2 v s = writeRegister a v s := by
  obtain ⟨hlow, hhigh⟩ := hasic
  have hblock := Regs.entry_asic (b := a / 128) (by omega) (by omega) r
  have hplace : 128 * (a / 128 - 120) + a % 128 = a - 0x3C00 := by omega
  have hreg : a - 0x3C00 + WPC_ASIC_BASE = a := Nat.sub_add_cancel hlow
  have hcls : (s.devices.getD 1 ⟨.null, 0⟩).cls = .wpcAsic := by
    rw [h.devices]
    rfl
  rw [h.target_attached (by omega) (by rw [hblock]; dsimp only; decide), hblock]
  dsimp only
  rw [hplace, Word.trunc_of_lt (by omega)]
  simp only [hardware]
  rw [run_bind_ok run_get, hcls]
  exact congrArg (writeRegister · v s) hreg

/-- The running board after the stores. -/
structure Stored (r₀ : Regs) (c₀ : ℕ × ℕ → U8) (l : List (ℕ × U8)) (s : Board Priv) : Prop where
  paged : Paged (windows.registers r₀ l) s
  running : s.cpuRunning = true
  holds : windows.Holds r₀ c₀ l (windows.registers r₀ l) fun p => s.mem p.1 p.2

namespace Stored

/-- What leaves the map and the memory alone. -/
theorem keeps {α : Type} {m : M α} (hmap : ∀ image r, Keeps (RomHeld image r) m)
    (hmem : ∀ c, Keeps (Contents c) m) : Keeps (Stored r₀ c₀ l) m := by
  refine ⟨fun s h => ?_⟩
  have hheld := (hmap (s.mem 3) _).keeps s ⟨h.paged, h.running, rfl⟩
  have hcontents : (finalState (m s)).mem = s.mem := (hmem s.mem).keeps s rfl
  refine ⟨hheld.paged, hheld.running, ?_⟩
  rw [hcontents]
  exact h.holds

instance : Untraced (Stored r₀ c₀ l) where
  traced _ _ _ h := ⟨⟨h.paged.devices, h.paged.maps, h.paged.ramDev, h.paged.unlocked,
    h.paged.lockSize⟩, h.running, h.holds⟩

/-- A store that leaves the registers and the memory alone. -/
theorem skip (h : Stored r₀ c₀ l s) {a : ℕ} (v : U8) (hasic : ¬Asics a)
    (hplace : ¬(windows.registers r₀ l).Takes a) : Stored r₀ c₀ ((a, v) :: l) s := by
  have hsame : windows.registers r₀ l = windows.registers r₀ ((a, v) :: l) :=
    (Regs.write_outside hasic v).symm
  exact ⟨hsame ▸ h.paged, h.running, hsame ▸ h.holds.control hsame (if_neg hplace)⟩

/-- A store to a register of the ASIC. -/
theorem asicWrite (h : Stored r₀ c₀ l s) {a : ℕ} (v : U8) (hasic : Asics a) (pc : ℕ) :
    Stored r₀ c₀ ((a, v) :: l)
      (finalState (hardware.write pc (s.target a).1 (s.target a).2 v s)) := by
  rw [h.paged.asic_write hasic]
  have hheld := writeRegister_held ⟨h.paged, h.running, rfl⟩ a v
  have hcontents : (finalState (writeRegister a v s)).mem = s.mem :=
    (writeRegister_contents a v).keeps s rfl
  refine ⟨hheld.paged, hheld.running, ?_⟩
  rw [hcontents]
  exact h.holds.control rfl (if_neg fun htakes => htakes.2.1 hasic)

/-- A store to the memory. -/
theorem memoryWrite (h : Stored r₀ c₀ l s) {a : ℕ} (v : U8)
    (htakes : (windows.registers r₀ l).Takes a) (pc : ℕ) :
    Stored r₀ c₀ ((a, v) :: l)
      (finalState (hardware.write pc (s.target a).1 (s.target a).2 v s)) := by
  generalize hp : (windows.registers r₀ l).served a = p
  have hmemory : Memory p.1 := hp ▸ htakes.memory
  have hinside : p.2 < (devices.getD p.1 ⟨.null, 0⟩).size := hp ▸ htakes.inside
  have hoffset := Regs.entry_offset (b := a / 128) (by have := htakes.1; omega)
    (windows.registers r₀ l)
  have htarget : s.target a = p := by
    have hdev : ((windows.registers r₀ l).entry (a / 128)).devid < 5 := by
      have hfst : ((windows.registers r₀ l).entry (a / 128)).devid = p.1 := congrArg Prod.fst hp
      rw [hfst]
      rcases hmemory with h2 | h3 | h4 <;> omega
    rw [h.paged.target_attached htakes.1 hdev, Word.trunc_of_lt (by omega)]
    exact hp
  have hwrite : hardware.write pc p.1 p.2 v s = .ok () (s.setMem p.1 p.2 v) := by
    rw [hardware_write h.paged.devices hmemory, ramWrite, run_bind_ok run_get,
      if_pos (by rw [h.paged.size]; exact hinside)]
    rfl
  have hsame : windows.registers r₀ l = windows.registers r₀ ((a, v) :: l) :=
    (Regs.write_outside htakes.2.1 v).symm
  have hmem : (fun q : ℕ × ℕ => (s.setMem p.1 p.2 v).mem q.1 q.2) =
      Function.update (fun q => s.mem q.1 q.2) p v := by
    funext q
    rw [Function.update_apply, Board.setMem]
    exact if_congr Prod.ext_iff.symm rfl rfl
  rw [htarget, hwrite]
  refine ⟨hsame ▸ ⟨h.paged.devices, h.paged.maps, h.paged.ramDev, h.paged.unlocked,
    h.paged.lockSize⟩, h.running, ?_⟩
  change windows.Holds r₀ c₀ _ _ fun q : ℕ × ℕ => (s.setMem p.1 p.2 v).mem q.1 q.2
  rw [hmem, ← hsame, ← hp]
  exact h.holds.update hsame.symm (if_pos htakes)

theorem write8 (h : Stored r₀ c₀ l s) (pc a : ℕ) (v : U8) :
    Stored r₀ c₀ ((a, v) :: l) (finalState (cpuWrite8 hardware pc a v s)) := by
  refine cpuWrite8_final v (fun hdenied => ?_) fun hlet log mon => ?_
  · have hclosed (ha : a < 0x10000)
        (hw : ((windows.registers r₀ l).entry (a / 128)).writable = true)
        (hdev : ((windows.registers r₀ l).entry (a / 128)).devid < 5) : False := by
      have hentry : findMap s.busmaps a = _ := h.paged.maps (a / 128) (by omega)
      exact hdenied ⟨⟨ha, .inr (by rw [hentry]; exact hw)⟩, by rw [hentry]; exact h.paged.attached hdev⟩
    refine h.skip v (fun hasic => ?_) fun htakes => ?_
    · obtain ⟨hlow, hhigh⟩ := hasic
      have hentry := Regs.entry_asic (b := a / 128) (by omega) (by omega) (windows.registers r₀ l)
      have hwritable : (MAP_READWRITE &&& MAP_WRITABLE != 0) = true := by decide
      exact hclosed (by omega) (by rw [hentry]; exact hwritable) (by rw [hentry]; dsimp only; decide)
    · refine hclosed htakes.1 htakes.2.2 ?_
      rcases htakes.memory with h2 | h3 | h4
      all_goals
        change ((windows.registers r₀ l).entry (a / 128)).devid = _ at *
        omega
  · obtain ⟨ha, hallowed⟩ := hlet
    have htraced : Stored r₀ c₀ l (s.traced log mon) := Untraced.traced log mon s h
    have hentry : findMap s.busmaps a = _ := h.paged.maps (a / 128) (by omega)
    have hw : ((windows.registers r₀ l).entry (a / 128)).writable = true := by
      rw [← hentry]
      exact hallowed.resolve_left (by simp [h.running])
    by_cases hasic : Asics a
    · exact htraced.asicWrite v hasic pc
    · exact htraced.memoryWrite v ⟨ha, hasic, hw⟩ pc

end Stored

/-! ## Whole runs -/

/-- The registers that decide over the map and are not in it. -/
def Asic.lock (a : Asic) : ℕ × U8 × U8 := (a.ramDev, a.ramUnlocked, a.ramLockSize)

theorem Panel.expire_lock (p : Panel) : p.expire.asic.lock = p.asic.lock := by
  unfold expire
  split_ifs <;> rfl

theorem Panel.wpcKeypoll_lock (p : Panel) : p.wpcKeypoll.asic.lock = p.asic.lock := by
  unfold wpcKeypoll
  split
  · rfl
  · split <;> rfl

/-- What the keyboard, the clock and the periodic function do. -/
structure Change where
  act : Priv → Priv
  kept : ∀ p, (act p).asic.lock = p.asic.lock

namespace Change

def apply (d : Change) (s : Board Priv) : Board Priv := { s with priv := d.act s.priv }

theorem apply_stored (d : Change) (h : Stored r₀ c₀ l s) : Stored r₀ c₀ l (d.apply s) := by
  have hkept := d.kept s.priv
  simp only [Asic.lock, Prod.mk.injEq] at hkept
  obtain ⟨hramDev, hunlocked, hlockSize⟩ := hkept
  exact ⟨⟨h.paged.devices, h.paged.maps, hramDev.trans h.paged.ramDev,
    hunlocked.trans h.paged.unlocked, hlockSize.trans h.paged.lockSize⟩, h.running, h.holds⟩

/-- The periodic function, which shares the ASIC and the input with the machine. -/
def periodic (currSw : ℕ) (currSwTime : ℤ) : Change where
  act p :=
    let q := Panel.wpcPeriodic ⟨p.asic, currSw, currSwTime, p.input⟩
    { p with asic := q.asic, input := q.input }
  kept _ := (Panel.expire_lock _).trans (Panel.wpcKeypoll_lock _)

end Change

instance : Bus (Board Priv) := Debugger.boardBus hardware

theorem stored_follows : FollowsStores (Stored r₀ c₀) where
  read8 _ pc a := Stored.keeps (fun _ _ => cpuRead8_keeps (read_keeps pc) a)
    fun _ => cpuRead8_keeps (read_contents pc) a
  read16 _ pc a := Stored.keeps (fun _ _ => cpuRead16_keeps (read_keeps pc) a)
    fun _ => cpuRead16_keeps (read_contents pc) a
  write8 _ pc a v _ h := h.write8 pc a v
  simError _ := Access.simError_keeps
  running _ _ h := ⟨⟨h.paged.devices, h.paged.maps, h.paged.ramDev, h.paged.unlocked,
    h.paged.lockSize⟩, rfl, h.holds⟩

/-- From the start of wpc on, whatever the processor and the devices do: a read that the registers
lead to a byte of a memory gets what the stores let through have last put there, through whichever
window, and the registers are those that the stores have set. -/
theorem read_lastLet (debug : Bool) (priv : Priv) (bootRom : ℕ → U8) :
    ∃ b, started bootRom (Board.start .wpcFault debug priv) = .ok () b ∧
      ∀ xs : List (Moment Change),
        let s := finalState (runAll (Moment.perform Change.apply) xs (Cpu.powerOn b))
        let r := windows.registers Regs.start (stores s.trace)
        s.bus.priv.asic.ramUnlocked = r.unlocked ∧ s.bus.priv.asic.ramLockSize = r.lockSize ∧
          ∀ pc a, a < 0x10000 → Memory (r.served a).1 →
            (r.served a).2 < (devices.getD (r.served a).1 ⟨.null, 0⟩).size →
            ∃ t, cpuRead8 hardware pc a s.bus = .ok
              ((windows.lastAt Regs.start (r.served a) (stores s.trace)).getD
                (b.mem (r.served a).1 (r.served a).2)) t := by
  obtain ⟨b, hrun, hpaged, hrunning⟩ := started_run debug priv bootRom
  refine ⟨b, hrun, fun xs => ?_⟩
  intro s r
  have hrecorded : FollowsStores.Recorded (Stored Regs.start fun p => b.mem p.1 p.2)
      (Cpu.powerOn b).trace s :=
    stored_follows.run (fun _ d _ h => d.apply_stored h) xs (Cpu.powerOn b)
      ⟨hpaged, hrunning, Translation.Holds.start _ _⟩
  obtain ⟨es, hes, hstored⟩ := hrecorded
  have htrace : stores s.trace = stores es := by
    rw [hes]
    exact congrArg stores (List.append_nil es)
  have hr : windows.registers Regs.start (stores es) = r := by rw [← htrace]
  refine ⟨?_, ?_, fun pc a ha hmemory hinside => ?_⟩
  · rw [← hr]
    exact hstored.paged.unlocked
  · rw [← hr]
    exact hstored.paged.lockSize
  · have hheld : RomHeld (s.bus.mem 3) r s.bus := ⟨hr ▸ hstored.paged, hstored.running, rfl⟩
    have hdev : (r.entry (a / 128)).devid < 5 := by
      rcases hmemory with h2 | h3 | h4
      all_goals
        change (r.entry (a / 128)).devid = _ at *
        omega
    have hleads : Leads (r.entry (a / 128)) a (r.served a).1 (r.served a).2 :=
      ⟨rfl, hmemory, rfl, by
        have hoffset := r.entry_offset (b := a / 128) (by omega)
        rw [Regs.served]
        dsimp only
        omega⟩
    have hreadable : (r.entry (a / 128)).flags &&& MAP_READABLE ≠ 0 := by
      have hread := Regs.entry_readable hdev
      rwa [BusEntry.readable, bne_iff_ne] at hread
    obtain ⟨e, hread⟩ := hheld.read_leads ha hleads hreadable pc
    refine ⟨s.bus.record e, hread.trans ?_⟩
    rw [ramRead, run_bind_ok run_get, if_pos (by
      change _ < s.bus.size (r.served a).1
      rw [hheld.paged.size]
      exact hinside), htrace]
    exact congrArg (EStateM.Result.ok · (s.bus.record e)) (hstored.holds.memory (r.served a))

end Exec09.Wpc
