import Exec09.Bus.Overrun
import Exec09.Multicomp.Reach

/-! # Buffer bounds on multicomp09

A block register names one of 128 physical blocks, and the RAM has 64 of them.
An access overruns the RAM if its block lies behind them, if a word starts at
the last byte of the RAM, or if the message of a controller register that
cannot be read takes its byte from there.
-/
namespace Exec09.Multicomp
open Foundation Access

variable {s t : Board Priv} {m : Mapper} {a pc : ℕ} {b st : Prop}

/-- The address of an I/O register. -/
def Io (a : ℕ) : Prop := 0xFFD0 ≤ a ∧ a ≤ 0xFFDF

/-- The address of a controller register that cannot be read. -/
def Reports (a : ℕ) : Prop :=
  a = 0xFFDA ∨ a = 0xFFDB ∨ a = 0xFFDC ∨ a = 0xFFDE ∨ a = 0xFFDF

instance : Decidable (Io a) := inferInstanceAs (Decidable (_ ∧ _))

instance : Decidable (Reports a) := inferInstanceAs (Decidable (_ ∨ _))

namespace Mapper

/-- The byte that comes `k` places after the one serving the address lies behind the RAM. -/
def Past (a k : ℕ) (m : Mapper) : Prop := (m.served a).1 = 1 ∧ 0x80000 ≤ (m.served a).2 + k

/-- A read of one byte leaves the RAM, itself or for the message about the register. -/
def ReadBeyond (pc a : ℕ) (m : Mapper) : Prop :=
  (¬Io a ∧ m.Past a 0) ∨
    (Reports a ∧ usub pc 3 < 0x10000 ∧ ¬Io (usub pc 3) ∧ m.Past (usub pc 3) 0)

/-- The message about the register stops the emulator in another way. -/
def Stuck (pc a : ℕ) : Prop := Reports a ∧ (¬usub pc 3 < 0x10000 ∨ Reports (usub pc 3))

/-- An access leaves the RAM. Through the expander the two bytes of a word are read one by one. -/
def Beyond (e : CpuAccess) (m : Mapper) : Prop :=
  match e with
  | .read8 pc a => a < 0x10000 ∧ m.ReadBeyond pc a
  | .read16 pc a =>
    if a < 0xFF80 then m.Past a 1
    else a < 0x10000 ∧ (m.ReadBeyond pc a ∨
      (¬Stuck pc a ∧ a < 0xFFFF ∧ m.ReadBeyond pc (a + 1)))
  | .write8 _ a _ => a < 0x10000 ∧ ¬Io a ∧ m.permission a &&& MAP_WRITABLE ≠ 0 ∧ m.Past a 0

theorem served_bound (ha : a < 0x10000) (m : Mapper) : (m.served a).2 < 0x100000 := by
  have hpage := page_lt (show a / 8192 < 8 by omega) m
  rw [served]
  split
  · omega
  · split
    · omega
    · dsimp only
      omega

end Mapper

/-- How a read of one byte ends. -/
def Outcome {α : Type} (b st : Prop) (m : Mapper) : EStateM.Result Stop (Board Priv) α → Prop
  | .ok _ t => ¬b ∧ ¬st ∧ Mapped t ∧ t.priv.mapper = m
  | .error x _ => (x.Overrun ∧ b) ∨ (¬x.Overrun ∧ ¬b ∧ st)

theorem Outcome.overran_iff {α : Type} {r : EStateM.Result Stop (Board Priv) α}
    (h : Outcome b st m r) : Overran r ↔ b := by
  cases r with
  | ok v t => exact iff_of_false not_overran_ok h.1
  | error x t =>
    rw [overran_error]
    rcases h with ⟨hx, hb⟩ | ⟨hx, hb, -⟩
    · exact iff_of_true hx hb
    · exact iff_of_false hx hb

theorem Outcome.congr {α : Type} {r : EStateM.Result Stop (Board Priv) α} {b' st' : Prop}
    (h : Outcome b st m r) (hb : b ↔ b') (hst : st ↔ st') : Outcome b' st' m r := by
  rwa [← hb, ← hst]

theorem Mapped.past_iff (h : Mapped s) (ha : a < 0x10000) {k : ℕ} (hk : k = 0 ∨ k = 1 ∧ a < 0xFFFF) :
    s.size (s.priv.mapper.served a).1 ≤ (s.priv.mapper.served a).2 + k ↔ s.priv.mapper.Past a k := by
  rw [Mapper.Past]
  rcases s.priv.mapper.served_dev a with hram | hrom
  · simp [hram, h.size_ram]
  · have hplace : (s.priv.mapper.served a).2 = a - 0xE000 := by
      rw [Mapper.served] at hrom ⊢
      split_ifs at hrom ⊢
      · rfl
      · cases hrom
      · cases hrom
    simp [hrom, h.size_rom, hplace]
    omega

/-- A read of the RAM or the ROM behind the map or the expander. -/
theorem Mapped.memory_outcome (h : Mapped s) (read8 : ℕ → M U8) (pc : ℕ) {dev offset : ℕ}
    (hdev : dev = 1 ∨ dev = 2) :
    Outcome (s.size dev ≤ offset) False s.priv.mapper (classRead read8 pc dev offset s) := by
  by_cases hin : offset < s.size dev
  · rw [h.classRead_memory read8 pc hdev hin]
    exact ⟨by omega, id, h, rfl⟩
  · have hread : classRead read8 pc dev offset s = ramRead dev offset s := by
      rw [classRead, run_bind_ok run_get, h.devices]
      rcases hdev with rfl | rfl <;> rfl
    have hover : ramRead dev offset s = .error (.fatal .bufferRead) s := by
      rw [ramRead, run_bind_ok run_get, if_neg hin]
      rfl
    rw [hread, hover]
    exact .inl ⟨.inl rfl, by omega⟩

theorem Mapped.console_outcome (h : Mapped s) (read8 : ℕ → M U8) (pc offset : ℕ) :
    Outcome False False s.priv.mapper (classRead read8 pc 3 offset s) := by
  have hread : classRead read8 pc 3 offset s = .ok (s.priv.console.read offset).1
      (setConsole (fun _ => (s.priv.console.read offset).2) s) := by
    rw [classRead, run_bind_ok run_get, h.devices]
    rfl
  rw [hread]
  exact ⟨id, id, h.frame rfl rfl rfl rfl, rfl⟩

/-- A register of the controller. -/
theorem Mapped.controller_outcome (h : Mapped s) {read8 : ℕ → M U8} {reg : ℕ} (hreg : reg < 8)
    (hread : Reports (0xFFD8 + reg) → Outcome b st s.priv.mapper (read8 (usub pc 3) s)) :
    Outcome (Reports (0xFFD8 + reg) ∧ b) (Reports (0xFFD8 + reg) ∧ st) s.priv.mapper
      (classRead read8 pc 4 reg s) := by
  have hclass : classRead read8 pc 4 reg s = sdmapperRead read8 pc reg s := by
    rw [classRead, run_bind_ok run_get, h.devices]
    rfl
  have hmessage (hreport : Reports (0xFFD8 + reg)) :
      Outcome (Reports (0xFFD8 + reg) ∧ b) (Reports (0xFFD8 + reg) ∧ st) s.priv.mapper ((do
        let _ ← read8 (usub pc 3)
        return 0x42 : M U8) s) := by
    have hend := hread hreport
    rw [and_iff_right hreport, and_iff_right hreport]
    cases hr : read8 (usub pc 3) s with
    | ok v t =>
      rw [hr] at hend
      rw [run_bind_ok hr]
      exact hend
    | error x t =>
      rw [hr] at hend
      rw [run_bind_error hr]
      exact hend
  have hsd : Mapped (setSd (s.priv.sd.read reg).2 s) := h.frame rfl rfl rfl rfl
  rw [hclass]
  have hcases : reg = 0 ∨ reg = 1 ∨ reg = 2 ∨ reg = 3 ∨ reg = 4 ∨ reg = 5 ∨ reg = 6 ∨ reg = 7 := by
    omega
  rcases hcases with rfl | rfl | rfl | rfl | rfl | rfl | rfl | rfl
  · exact ⟨by simp [Reports], by simp [Reports], hsd, rfl⟩
  · exact ⟨by simp [Reports], by simp [Reports], hsd, rfl⟩
  · exact hmessage (by decide)
  · exact hmessage (by decide)
  · exact hmessage (by decide)
  · exact ⟨by simp [Reports], by simp [Reports], h, rfl⟩
  · exact hmessage (by decide)
  · exact hmessage (by decide)

/-- A read through a slot of the expander. -/
theorem Mapped.slot_outcome (h : Mapped s) {read8 : ℕ → M U8} (hlow : 0xFF80 ≤ a) (ha : a < 0x10000)
    (hread : Reports a → Outcome b st s.priv.mapper (read8 (usub pc 3) s)) :
    Outcome ((¬Io a ∧ s.priv.mapper.Past a 0) ∨ (Reports a ∧ b)) (Reports a ∧ st) s.priv.mapper
      (deviceRead read8 pc 5 (a - 0xFF80) s) := by
  have hrun := h.throughExpander_run hlow ha
  have hdevice (dev offset : ℕ) (hslot : (s.priv.mapper.slot ((a - 0xFF80) / 8)).1 = dev)
      (hplace : Word.trunc 64 (a % 8 + (s.priv.mapper.slot ((a - 0xFF80) / 8)).2) = offset) :
      deviceRead read8 pc 5 (a - 0xFF80) s = classRead read8 pc dev offset s := by
    rw [hslot, hplace] at hrun
    exact run_bind_ok hrun
  by_cases hio : Io a
  · have hboth : a / 8 = 0xFFD0 / 8 ∨ a / 8 = 0xFFD8 / 8 := by
      rw [Io] at hio
      omega
    rcases hboth with hconsole | hcontroller
    · have hslot : s.priv.mapper.slot ((a - 0xFF80) / 8) = (3, 0) := if_pos (by omega)
      have hreport : ¬Reports a := by
        rw [Reports]
        omega
      rw [hdevice 3 (a - 0xFFD0) (by rw [hslot]) (by
        rw [hslot, Word.trunc_of_lt (by omega)]
        omega)]
      exact (h.console_outcome read8 pc _).congr (by simp [hio, hreport]) (by simp [hreport])
    · have hslot : s.priv.mapper.slot ((a - 0xFF80) / 8) = (4, 0) := by
        rw [Mapper.slot, if_neg (by omega), if_pos (by omega)]
      have haddr : 0xFFD8 + (a - 0xFFD8) = a := by omega
      rw [hdevice 4 (a - 0xFFD8) (by rw [hslot]) (by
        rw [hslot, Word.trunc_of_lt (by omega)]
        omega)]
      have hend := h.controller_outcome (show a - 0xFFD8 < 8 by omega) fun hreport =>
        hread (by rwa [haddr] at hreport)
      rw [haddr] at hend
      exact hend.congr (by simp [hio]) Iff.rfl
  · obtain ⟨hsame, hplace⟩ := Mapper.slot_served (m := s.priv.mapper) hlow ha hio
    have hbound := s.priv.mapper.served_bound ha
    have hreport : ¬Reports a := by
      rw [Reports]
      rw [Io] at hio
      omega
    rw [hdevice _ (s.priv.mapper.served a).2 hsame (by rw [hplace, Word.trunc_of_lt (by omega)])]
    refine (h.memory_outcome read8 pc (s.priv.mapper.served_dev a)).congr ?_ (by simp [hreport])
    have hpast := h.past_iff ha (.inl rfl)
    simp only [Nat.add_zero] at hpast
    simp [hio, hreport, hpast]

/-- A read of the device that the address is mapped to. -/
theorem Mapped.device_outcome (h : Mapped s) {read8 : ℕ → M U8} (ha : a < 0x10000)
    (hread : Reports a → Outcome b st s.priv.mapper (read8 (usub pc 3) s)) :
    Outcome ((¬Io a ∧ s.priv.mapper.Past a 0) ∨ (Reports a ∧ b)) (Reports a ∧ st) s.priv.mapper
      (deviceRead read8 pc (s.target a).1 (s.target a).2 s) := by
  by_cases hlow : a < 0xFF80
  · have hio : ¬Io a := by
      rw [Io]
      omega
    have hreport : ¬Reports a := by
      rw [Reports]
      omega
    have hdev := s.priv.mapper.served_dev a
    have hdevice : deviceRead read8 pc (s.target a).1 (s.target a).2 s =
        classRead read8 pc (s.priv.mapper.served a).1 (s.priv.mapper.served a).2 s := by
      rw [h.target_served hlow]
      exact run_bind_ok (h.throughExpander_other hdev)
    rw [hdevice]
    refine (h.memory_outcome read8 pc hdev).congr ?_ (by simp [hreport])
    have hpast := h.past_iff ha (.inl rfl)
    simp only [Nat.add_zero] at hpast
    simp [hio, hreport, hpast]
  · rw [h.target_expander (by omega) ha]
    exact h.slot_outcome (by omega) ha hread

theorem Mapped.readStops (h : Mapped s) (ha : a < 0x10000) : s.readStops a = false := by
  obtain ⟨hattached, hreadable⟩ : s.unattached (findMap s.busmaps a).devid = false ∧
      (findMap s.busmaps a).readable = true := by
    by_cases hlow : a < 0xFF80
    · have hdev := s.priv.mapper.served_dev a
      have hresolve := h.resolve_served hlow
      simp only [resolve, BusEntry.resolution, Resolution.mk.injEq] at hresolve
      rw [hresolve.1, BusEntry.readable, hresolve.2.2, bne_iff_ne]
      exact ⟨h.attached (by omega), s.priv.mapper.permission_readable a⟩
    · have hresolve := h.resolve_expander (by omega) ha
      simp only [resolve, BusEntry.resolution, Resolution.mk.injEq] at hresolve
      rw [hresolve.1, BusEntry.readable, hresolve.2.2, bne_iff_ne]
      exact ⟨h.attached (by decide), by decide⟩
  rw [Board.readStops, hattached, hreadable]
  simp

/-- A read of the CPU is a read of the device. -/
theorem Mapped.cpuRead8_run (h : Mapped s) (hw : Hardware Priv) (pc : ℕ) (ha : a < 0x10000) :
    ∃ log m, cpuRead8 hw pc a s = hw.read pc (s.target a).1 (s.target a).2 (s.traced log m) := by
  obtain ⟨m, hrun⟩ := readTarget_ok ha (h.readStops ha)
  exact ⟨_, m, run_bind_ok hrun⟩

theorem Mapped.traced (h : Mapped s) (log : List BusEvent) (mon : Bool) : Mapped (s.traced log mon) :=
  h.frame rfl rfl rfl rfl

/-- The read that a message makes. -/
theorem Mapped.nested_outcome (h : Mapped s) (pc q : ℕ) :
    Outcome (q < 0x10000 ∧ ¬Io q ∧ s.priv.mapper.Past q 0) (¬q < 0x10000 ∨ Reports q) s.priv.mapper
      (cpuRead8 nestedHardware pc q s) := by
  by_cases hq : q < 0x10000
  · obtain ⟨log, mon, hrun⟩ := h.cpuRead8_run nestedHardware pc hq
    have hstop : Outcome False True s.priv.mapper
        ((throw (.fatal .recursion) : M U8) (s.traced log mon)) :=
      .inr ⟨by simp [Stop.Overrun], id, trivial⟩
    have hend : Outcome ((¬Io q ∧ s.priv.mapper.Past q 0) ∨ (Reports q ∧ False))
        (Reports q ∧ True) s.priv.mapper
        (nestedHardware.read pc (s.target q).1 (s.target q).2 (s.traced log mon)) :=
      (h.traced log mon).device_outcome hq fun _ => hstop
    rw [hrun]
    exact hend.congr (by simp [hq]) (by simp [hq])
  · have hread : cpuRead8 nestedHardware pc q s = .error (.fatal .mapIndex) s :=
      run_bind_error (run_bind_error (entry_overran hq))
    rw [hread]
    exact .inr ⟨by simp [Stop.Overrun], by simp [hq], .inl hq⟩

/-- A read of one byte at the device of the address. -/
theorem Mapped.byte_outcome (h : Mapped s) (pc : ℕ) (ha : a < 0x10000) :
    Outcome (s.priv.mapper.ReadBeyond pc a) (Mapper.Stuck pc a) s.priv.mapper
      (hardware.read pc (s.target a).1 (s.target a).2 s) :=
  h.device_outcome ha fun _ => h.nested_outcome pc (usub pc 3)

/-! ## Accesses of the CPU -/

theorem Mapped.target_attached (h : Mapped s) (ha : a < 0x10000) :
    s.unattached (findMap s.busmaps a).devid = false := by
  by_cases hlow : a < 0xFF80
  · have hdev := s.priv.mapper.served_dev a
    have hresolve := h.resolve_served hlow
    simp only [resolve, BusEntry.resolution, Resolution.mk.injEq] at hresolve
    rw [hresolve.1]
    exact h.attached (by omega)
  · have hresolve := h.resolve_expander (by omega) ha
    simp only [resolve, BusEntry.resolution, Resolution.mk.injEq] at hresolve
    rw [hresolve.1]
    exact h.attached (by decide)

/-- The two bytes of a word below the expander. -/
theorem Mapped.word_overran (h : Mapped s) (pc : ℕ) (ha : a < 0xFF80) : Overran ((do
      let high ← hardware.read pc (s.target a).1 (s.target a).2
      let low ← hardware.read pc (s.target a).1 (Word.trunc 64 ((s.target a).2 + 1))
      return high ++ low : M U16) s) ↔ s.priv.mapper.Past a 1 := by
  have hdev := s.priv.mapper.served_dev a
  have hbound := s.priv.mapper.served_bound (show a < 0x10000 by omega)
  have hread (offset : ℕ) : hardware.read pc (s.priv.mapper.served a).1 offset s =
      ramRead (s.priv.mapper.served a).1 offset s := by
    have hclass : classRead (cpuRead8 nestedHardware pc) pc (s.priv.mapper.served a).1 offset s =
        ramRead (s.priv.mapper.served a).1 offset s := by
      rw [classRead, run_bind_ok run_get, h.devices]
      rcases hdev with hram | hrom
      · rw [hram]
        rfl
      · rw [hrom]
        rfl
    exact (run_bind_ok (h.throughExpander_other hdev)).trans hclass
  rw [← h.past_iff (show a < 0x10000 by omega) (.inr ⟨rfl, by omega⟩), h.target_served ha]
  by_cases hin : (s.priv.mapper.served a).2 < s.size (s.priv.mapper.served a).1
  · have hfirst : hardware.read pc (s.priv.mapper.served a).1 (s.priv.mapper.served a).2 s =
        .ok (s.mem (s.priv.mapper.served a).1 (s.priv.mapper.served a).2) s := by
      rw [hread, ramRead, run_bind_ok run_get, if_pos hin]
      rfl
    rw [overran_bind_ok hfirst, Word.trunc_of_lt (by omega)]
    refine (overran_bind_left fun _ _ => not_overran_ok).trans ?_
    rw [hread, ramRead_overran]
  · have hfirst : hardware.read pc (s.priv.mapper.served a).1 (s.priv.mapper.served a).2 s =
        .error (.fatal .bufferRead) s := by
      rw [hread, ramRead, run_bind_ok run_get, if_neg hin]
      rfl
    rw [overran_bind_error hfirst]
    exact iff_of_true (.inl rfl) (by omega)

/-- The two bytes of a word that the expander reads. -/
theorem Mapped.slots_overran (h : Mapped s) (pc : ℕ) (hlow : 0xFF80 ≤ a) (ha : a < 0x10000) :
    Overran ((do
      let high ← hardware.read pc (s.target a).1 (s.target a).2
      let low ← hardware.read pc (s.target a).1 (Word.trunc 64 ((s.target a).2 + 1))
      return high ++ low : M U16) s) ↔ s.priv.mapper.ReadBeyond pc a ∨
        (¬Mapper.Stuck pc a ∧ a < 0xFFFF ∧ s.priv.mapper.ReadBeyond pc (a + 1)) := by
  have hfirst := h.byte_outcome pc ha
  rw [h.target_expander hlow ha] at hfirst ⊢
  have hnext : a - 0xFF80 + 1 = a + 1 - 0xFF80 := by omega
  cases hr : hardware.read pc 5 (a - 0xFF80) s with
  | ok v u =>
    rw [hr] at hfirst
    obtain ⟨hbeyond, hstuck, hu, hmapper⟩ := hfirst
    rw [overran_bind_ok hr, Word.trunc_of_lt (by omega), hnext]
    refine (overran_bind_left fun _ _ => not_overran_ok).trans ?_
    by_cases hlast : a < 0xFFFF
    · have hsecond := hu.byte_outcome pc (show a + 1 < 0x10000 by omega)
      rw [hu.target_expander (by omega) (by omega), hmapper] at hsecond
      rw [hsecond.overran_iff]
      simp [hbeyond, hstuck, hlast]
    · have hslot : hardware.read pc 5 (a + 1 - 0xFF80) u = .error (.fatal .arrayIndex) u := by
        have hthrough : throughExpander 5 (a + 1 - 0xFF80) u = .error (.fatal .arrayIndex) u := by
          rw [throughExpander, run_bind_ok run_get, hu.devices, if_pos (by decide), IoExpand.target,
            if_neg (by omega)]
          rfl
        exact run_bind_error hthrough
      rw [hslot, overran_error]
      refine iff_of_false (by simp [Stop.Overrun]) ?_
      simp [hbeyond, hlast]
  | error x u =>
    rw [hr] at hfirst
    rw [overran_bind_error hr]
    rcases hfirst with ⟨hx, hbeyond⟩ | ⟨hx, hbeyond, hstuck⟩
    · exact iff_of_true hx (.inl hbeyond)
    · exact iff_of_false hx (by simp [hbeyond, hstuck])

namespace Sd
variable {sd : Sd} {reg : ℕ} {val : U8} {x : Stop}

theorem readBlock_error (h : sd.readBlock = .error x) :
    x = .fatal .nullDevice ∨ x = .hang ∧ sd.addr < 0 := by
  rw [Sd.readBlock] at h
  split at h
  · cases h
    exact .inl rfl
  · rename_i f _
    split at h
    · rename_i hseek
      cases h
      refine .inr ⟨rfl, ?_⟩
      by_contra hpos
      rw [File.fseek, if_neg hpos] at hseek
      cases hseek
    · cases h

theorem writeData_error (h : sd.writeData val = .error x) : x = .fatal .nullDevice := by
  rcases sd.writeData_cases val with ⟨data, dindex, poll, hwrite⟩ | ⟨-, data, dindex, hwrite⟩
  · rw [hwrite] at h
    cases h
  · rw [hwrite] at h
    exact commit_error h

/-- A write stops the emulator only without an image file, or at a read command for an offset that
is negative. -/
theorem write_error (h : sd.write reg val = .error x) : x = .fatal .nullDevice ∨
    x = .hang ∧ reg = 1 ∧ val = 0 ∧ sd.state = .idle ∧ sd.formAddr < 0 := by
  match reg with
  | 0 => exact .inl (writeData_error h)
  | 1 =>
    by_cases hidle : sd.state = .idle
    · rw [Sd.write, if_pos hidle] at h
      cases hcommand : sd.command val with
      | ok sd' =>
        rw [hcommand] at h
        cases h
      | error y =>
        rw [hcommand] at h
        cases h
        rw [Sd.command] at hcommand
        generalize sd.formAddr = a at hcommand ⊢
        dsimp only at hcommand
        split at hcommand
        · rename_i hval
          rcases readBlock_error hcommand with hnull | ⟨hhang, hneg⟩
          · exact .inl hnull
          · exact .inr ⟨hhang, rfl, hval, hidle, hneg⟩
        · split at hcommand <;> cases hcommand
    · rw [Sd.write, if_neg hidle] at h
      cases h
  | 2 | 3 | 4 | _ + 5 => cases h

theorem write_stops (h : sd.write reg val = .error x) : ¬x.Overrun := by
  rcases write_error h with rfl | ⟨rfl, -⟩
  · simp [Stop.Overrun]
  · simp [Stop.Overrun]

end Sd

theorem sdmapperWrite_stops (reg : ℕ) (val : U8) :
    StopsFor (fun x : Stop => ¬x.Overrun) (sdmapperWrite reg val) := by
  have hremap (op : ℕ) : StopsFor (fun x : Stop => ¬x.Overrun) (sdmapperRemap op val) :=
    ⟨fun s x t h => by
      rw [sdmapperRemap_run] at h
      cases h⟩
  rw [sdmapperWrite]
  refine StopsFor.get.seq fun s => ?_
  split
  · infer_instance
  · infer_instance
  · infer_instance
  · split
    · infer_instance
    · rename_i hx
      exact StopsFor.throw (Sd.write_stops hx)

/-- Behind the map and the expander is the place that serves the address. -/
theorem Mapped.through_served (h : Mapped s) (ha : a < 0x10000) (hio : ¬Io a) :
    throughExpander (s.target a).1 (s.target a).2 s = .ok (s.priv.mapper.served a) s := by
  by_cases hlow : a < 0xFF80
  · rw [h.target_served hlow]
    exact h.throughExpander_other (s.priv.mapper.served_dev a)
  · obtain ⟨hsame, hplace⟩ := Mapper.slot_served (m := s.priv.mapper) (by omega) ha hio
    have hbound := s.priv.mapper.served_bound ha
    rw [h.target_expander (by omega) ha, h.throughExpander_run (by omega) ha, hsame, hplace,
      Word.trunc_of_lt (by omega)]

theorem Mapped.write_overran (h : Mapped s) (pc : ℕ) (ha : a < 0x10000) (val : U8) :
    Overran (hardware.write pc (s.target a).1 (s.target a).2 val s) ↔
      ¬Io a ∧ s.priv.mapper.Past a 0 := by
  by_cases hio : Io a
  · refine iff_of_false ?_ fun hc => hc.1 hio
    obtain ⟨hlow, hhigh⟩ := hio
    have hslot : (s.priv.mapper.slot ((a - 0xFF80) / 8)).1 = 3 ∨
        (s.priv.mapper.slot ((a - 0xFF80) / 8)).1 = 4 := by
      have hboth : (a - 0xFF80) / 8 = 10 ∨ (a - 0xFF80) / 8 = 11 := by omega
      rcases hboth with hconsole | hcontroller
      · exact .inl (by rw [hconsole]; rfl)
      · exact .inr (by rw [hcontroller]; rfl)
    have hthrough := h.throughExpander_run (a := a) (by omega) ha
    rw [h.target_expander (by omega) ha]
    refine (not_congr (overran_bind_ok hthrough)).mpr ?_
    dsimp only
    generalize Word.trunc 64 (a % 8 + (s.priv.mapper.slot ((a - 0xFF80) / 8)).2) = offset
    rw [classWrite, run_bind_ok run_get, h.devices]
    rcases hslot with hdev | hdev
    · rw [hdev]
      exact not_overran (m := (modify (setConsole (Console.write offset val)) : M Unit))
    · have hsd := sdmapperWrite_stops offset val
      rw [hdev]
      exact not_overran (m := sdmapperWrite offset val)
  · have hclass : hardware.write pc (s.target a).1 (s.target a).2 val s =
        ramWrite (s.priv.mapper.served a).1 (s.priv.mapper.served a).2 val s := by
      have hwrite : classWrite (s.priv.mapper.served a).1 (s.priv.mapper.served a).2 val s =
          ramWrite (s.priv.mapper.served a).1 (s.priv.mapper.served a).2 val s := by
        rw [classWrite, run_bind_ok run_get, h.devices]
        rcases s.priv.mapper.served_dev a with hram | hrom
        · rw [hram]
          rfl
        · rw [hrom]
          rfl
      exact (run_bind_ok (h.through_served ha hio)).trans hwrite
    have hpast := h.past_iff ha (.inl rfl)
    simp only [Nat.add_zero] at hpast
    rw [hclass, ramWrite_overran, hpast]
    simp [hio]

theorem Mapped.writable_iff (h : Mapped s) (ha : a < 0x10000) :
    (findMap s.busmaps a).writable = true ↔ s.priv.mapper.permission a &&& MAP_WRITABLE ≠ 0 := by
  by_cases hlow : a < 0xFF80
  · have hresolve := h.resolve_served hlow
    simp only [resolve, BusEntry.resolution, Resolution.mk.injEq] at hresolve
    rw [BusEntry.writable, hresolve.2.2, bne_iff_ne]
  · have hresolve := h.resolve_expander (by omega) ha
    have hperm : s.priv.mapper.permission a = MAP_READWRITE := if_pos (by omega)
    simp only [resolve, BusEntry.resolution, Resolution.mk.injEq] at hresolve
    rw [BusEntry.writable, hresolve.2.2, bne_iff_ne, hperm]

/-- On multicomp09 an access overruns a buffer exactly if it leaves the RAM. -/
theorem Mapped.overruns_iff (h : Mapped s) (hrunning : s.cpuRunning = true) (e : CpuAccess) :
    Overruns hardware e s ↔ s.priv.mapper.Beyond e := by
  by_cases ha : e.addr < 0x10000
  · cases e with
    | read8 pc a =>
      have ha : a < 0x10000 := ha
      have hbyte (log : List BusEvent) (mon : Bool) :
          Overran (hardware.read pc (s.target a).1 (s.target a).2 (s.traced log mon)) ↔
            s.priv.mapper.ReadBeyond pc a :=
        ((h.traced log mon).byte_outcome pc ha).overran_iff
      rw [read8_overruns hbyte, iff_true_intro (h.readStops ha), true_and]
      rfl
    | read16 pc a =>
      have ha : a < 0x10000 := ha
      have hstops := h.readStops ha
      by_cases hlow : a < 0xFF80
      · have hword (log : List BusEvent) (mon : Bool) : Overran ((do
              let high ← hardware.read pc (s.target a).1 (s.target a).2
              let low ← hardware.read pc (s.target a).1 (Word.trunc 64 ((s.target a).2 + 1))
              return high ++ low : M U16) (s.traced log mon)) ↔ s.priv.mapper.Past a 1 :=
          (h.traced log mon).word_overran pc hlow
        rw [read16_overruns hword, Mapper.Beyond, if_pos hlow]
        exact ⟨fun hc => hc.2.2, fun hc => ⟨ha, hstops, hc⟩⟩
      · have hslots (log : List BusEvent) (mon : Bool) : Overran ((do
              let high ← hardware.read pc (s.target a).1 (s.target a).2
              let low ← hardware.read pc (s.target a).1 (Word.trunc 64 ((s.target a).2 + 1))
              return high ++ low : M U16) (s.traced log mon)) ↔ s.priv.mapper.ReadBeyond pc a ∨
                (¬Mapper.Stuck pc a ∧ a < 0xFFFF ∧ s.priv.mapper.ReadBeyond pc (a + 1)) :=
          (h.traced log mon).slots_overran pc (by omega) ha
        rw [read16_overruns hslots, Mapper.Beyond, if_neg hlow]
        exact and_congr_right fun _ => and_iff_right hstops
    | write8 pc a val =>
      have ha : a < 0x10000 := ha
      have hattached := h.target_attached ha
      have hwrite (log : List BusEvent) (mon : Bool) :
          Overran (hardware.write pc (s.target a).1 (s.target a).2 val (s.traced log mon)) ↔
            ¬Io a ∧ s.priv.mapper.Past a 0 :=
        (h.traced log mon).write_overran pc ha val
      rw [write8_overruns val (fun hc => absurd (hattached.symm.trans hc) (by decide)) hwrite,
        h.writable_iff ha, Mapper.Beyond]
      simp only [hrunning, Bool.true_eq_false, false_or]
      exact and_congr_right fun _ => and_left_comm
  · refine iff_of_false (not_overruns_of_outside ha) fun hc => ?_
    cases e with
    | read8 pc a => exact ha hc.1
    | read16 pc a =>
      have ha : ¬a < 0x10000 := ha
      have hlow : ¬a < 0xFF80 := by omega
      rw [Mapper.Beyond, if_neg hlow] at hc
      exact ha hc.1
    | write8 pc a val => exact ha hc.1

end Exec09.Multicomp
