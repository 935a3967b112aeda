import Exec09.Cpu.StoreHistory
import Exec09.Debugger.CodeView
import Exec09.Foundation.Translated
import Exec09.Multicomp.Bounds
import Exec09.Multicomp.Reach

/-! # The memory that a program on multicomp09 sees

The program changes the registers of the mapper as it goes, so one byte may be
stored through one window and read through another. Whatever the processor
does, a read gets what was last stored at the place that serves its address.
-/
namespace Exec09.Multicomp
open Foundation Access

instance (a k : ℕ) (m : Mapper) : Decidable (m.Past a k) := inferInstanceAs (Decidable (_ ∧ _))

/-- A store at the address changes a byte. -/
def Mapper.Takes (a : ℕ) (m : Mapper) : Prop :=
  a < 0x10000 ∧ ¬Io a ∧ m.permission a &&& MAP_WRITABLE ≠ 0 ∧ ¬m.Past a 0

instance (a : ℕ) (m : Mapper) : Decidable (m.Takes a) := inferInstanceAs (Decidable (_ ∧ _))

/-- Stores as a program sees them: two registers of the mapper, and the RAM and the ROM where the
map, or a slot of the expander, lets writes through. -/
def mapping : Translation Mapper ℕ U8 (ℕ × ℕ) where
  control a v m := if a = 0xFFDE ∨ a = 0xFFDF then (⟨0, a = 0xFFDF, v⟩ : MapperWrite).apply m else m
  place m a := if m.Takes a then some (m.served a) else none

theorem mapping_other {a : ℕ} (ha : a ≠ 0xFFDE ∧ a ≠ 0xFFDF) (v : U8) (m : Mapper) :
    mapping.control a v m = m := if_neg (by simpa using ha)

variable {m₀ : Mapper} {c₀ : ℕ × ℕ → U8} {l : List (ℕ × U8)} {s : Board Priv}

/-- The running board after the stores. -/
structure Held (m₀ : Mapper) (c₀ : ℕ × ℕ → U8) (l : List (ℕ × U8)) (s : Board Priv) : Prop where
  mapped : Mapped s
  running : s.cpuRunning = true
  holds : mapping.Holds m₀ c₀ l s.priv.mapper fun p => s.mem p.1 p.2

namespace Held

theorem frame (h : Held m₀ c₀ l s) {t : Board Priv} (hdevs : t.devices = s.devices)
    (hmaps : t.busmaps = s.busmaps) (hmapper : t.priv.mapper = s.priv.mapper)
    (hexpander : t.priv.expander = s.priv.expander) (hrunning : t.cpuRunning = s.cpuRunning)
    (hmem : t.mem = s.mem) : Held m₀ c₀ l t where
  mapped := h.mapped.frame hdevs hmaps hmapper hexpander
  running := hrunning.trans h.running
  holds := by
    rw [hmapper, hmem]
    exact h.holds

instance : Observed (Held m₀ c₀ l) where
  traced _ _ _ h := h.frame rfl rfl rfl rfl rfl rfl
  console _ _ h := h.frame rfl rfl rfl rfl rfl rfl
  sdRead _ _ h := h.frame rfl rfl rfl rfl rfl rfl

/-- A store that leaves the registers of the mapper and the memory alone. -/
theorem skip (h : Held m₀ c₀ l s) {a : ℕ} (v : U8) (hcontrol : a ≠ 0xFFDE ∧ a ≠ 0xFFDF)
    (hplace : ¬s.priv.mapper.Takes a) : Held m₀ c₀ ((a, v) :: l) s where
  mapped := h.mapped
  running := h.running
  holds := h.holds.control (mapping_other hcontrol v _).symm (if_neg hplace)

/-- A store that is let through to the RAM or the ROM. -/
theorem memoryWrite (h : Held m₀ c₀ l s) {a : ℕ} (v : U8) (ha : a < 0x10000) (hio : ¬Io a)
    (hwritable : s.priv.mapper.permission a &&& MAP_WRITABLE ≠ 0) (pc : ℕ) :
    Held m₀ c₀ ((a, v) :: l)
      (finalState (hardware.write pc (s.target a).1 (s.target a).2 v s)) := by
  have hother : a ≠ 0xFFDE ∧ a ≠ 0xFFDF := by
    rw [Io] at hio
    omega
  have hclass : classWrite (s.priv.mapper.served a).1 (s.priv.mapper.served a).2 v s
      = ramWrite (s.priv.mapper.served a).1 (s.priv.mapper.served a).2 v s := by
    rw [classWrite, run_bind_ok run_get, h.mapped.devices]
    rcases s.priv.mapper.served_dev a with hram | hrom
    · rw [hram]
      rfl
    · rw [hrom]
      rfl
  have hwrite : hardware.write pc (s.target a).1 (s.target a).2 v s
      = ramWrite (s.priv.mapper.served a).1 (s.priv.mapper.served a).2 v s :=
    (run_bind_ok (h.mapped.through_served ha hio)).trans hclass
  have hpast := h.mapped.past_iff ha (k := 0) (.inl rfl)
  rw [hwrite, ramWrite, run_bind_ok run_get]
  by_cases hin : (s.priv.mapper.served a).2 < s.size (s.priv.mapper.served a).1
  · rw [if_pos hin]
    have htakes : s.priv.mapper.Takes a := ⟨ha, hio, hwritable, fun hp => by
      have hout := hpast.mpr hp
      omega⟩
    have hmem : (fun p : ℕ × ℕ => (s.setMem (s.priv.mapper.served a).1 (s.priv.mapper.served a).2 v).mem
        p.1 p.2) = Function.update (fun p => s.mem p.1 p.2) (s.priv.mapper.served a) v := by
      funext p
      rw [Function.update_apply, Board.setMem]
      exact if_congr Prod.ext_iff.symm rfl rfl
    refine ⟨h.mapped.frame rfl rfl rfl rfl, h.running, ?_⟩
    change mapping.Holds m₀ c₀ _ s.priv.mapper (fun p : ℕ × ℕ =>
      (s.setMem (s.priv.mapper.served a).1 (s.priv.mapper.served a).2 v).mem p.1 p.2)
    rw [hmem]
    exact h.holds.update (mapping_other hother v _) (if_pos htakes)
  · rw [if_neg hin]
    exact h.skip v hother fun htakes => htakes.2.2.2 (hpast.mp (by omega))

/-- A store to a register of the controller. -/
theorem controllerWrite (h : Held m₀ c₀ l s) {a : ℕ} (v : U8) (hlow : 0xFFD8 ≤ a)
    (hhigh : a ≤ 0xFFDF) :
    Held m₀ c₀ ((a, v) :: l) (finalState (sdmapperWrite (a % 8) v s)) := by
  have hnone : ¬s.priv.mapper.Takes a := fun htakes => htakes.2.1 ⟨by omega, hhigh⟩
  by_cases hmapper : a = 0xFFDE ∨ a = 0xFFDF
  · obtain ⟨t, hrun, ht, hload, hrunning, hmem⟩ :=
      (⟨0, a = 0xFFDF, v⟩ : MapperWrite).controller_run h.mapped
    have hreg : a % 8 = if (⟨0, a = 0xFFDF, v⟩ : MapperWrite).dat then 7 else 6 := by
      rcases hmapper with rfl | rfl <;> rfl
    rw [hreg, hrun]
    refine ⟨ht, hrunning.trans h.running, ?_⟩
    change mapping.Holds m₀ c₀ _ t.priv.mapper fun p => t.mem p.1 p.2
    rw [hmem]
    exact h.holds.control (hload.trans (if_pos hmapper).symm) (if_neg hnone)
  · have hskip := h.skip v (by omega) hnone
    have hreg : a % 8 < 6 := by omega
    rw [sdmapperWrite, run_bind_ok run_get]
    by_cases htimer : a % 8 = 5
    · rw [htimer]
      exact hskip.frame rfl rfl rfl rfl rfl rfl
    · generalize a % 8 = reg at hreg htimer
      cases s.priv.sd.write reg v with
      | ok sd =>
        have hset : Held m₀ c₀ ((a, v) :: l) (finalState ((modify (setSd sd) : M Unit) s)) :=
          hskip.frame rfl rfl rfl rfl rfl rfl
        rcases reg with _ | _ | _ | _ | _ | _ | reg
        case succ.succ.succ.succ.succ.zero => exact absurd rfl htimer
        case succ.succ.succ.succ.succ.succ => omega
        all_goals exact hset
      | error e =>
        rcases reg with _ | _ | _ | _ | _ | _ | reg
        case succ.succ.succ.succ.succ.zero => exact absurd rfl htimer
        case succ.succ.succ.succ.succ.succ => omega
        all_goals exact hskip

/-- A store to an I/O register. -/
theorem ioWrite (h : Held m₀ c₀ l s) {a : ℕ} (v : U8) (hio : Io a) (pc : ℕ) :
    Held m₀ c₀ ((a, v) :: l)
      (finalState (hardware.write pc (s.target a).1 (s.target a).2 v s)) := by
  obtain ⟨hlow, hhigh⟩ := hio
  have hthrough := h.mapped.throughExpander_run (a := a) (by omega) (by omega)
  have hnone : ¬s.priv.mapper.Takes a := fun htakes => htakes.2.1 ⟨hlow, hhigh⟩
  have hwrite : hardware.write pc (s.target a).1 (s.target a).2 v s
      = classWrite (s.priv.mapper.slot ((a - 0xFF80) / 8)).1
        (Word.trunc 64 (a % 8 + (s.priv.mapper.slot ((a - 0xFF80) / 8)).2)) v s := by
    rw [h.mapped.target_expander (by omega) (by omega)]
    exact run_bind_ok hthrough
  rw [hwrite, classWrite, run_bind_ok run_get, h.mapped.devices]
  by_cases hconsole : a < 0xFFD8
  · have hslot : (a - 0xFF80) / 8 = 10 := by omega
    rw [hslot]
    exact (h.skip v (by omega) hnone).frame rfl rfl rfl rfl rfl rfl
  · have hslot : (a - 0xFF80) / 8 = 11 := by omega
    have hreg : Word.trunc 64 (a % 8 + (s.priv.mapper.slot 11).2) = a % 8 := by
      change Word.trunc 64 (a % 8 + 0) = a % 8
      rw [Nat.add_zero, Word.trunc_of_lt (by omega)]
    rw [hslot, hreg]
    exact h.controllerWrite v (by omega) hhigh

theorem write8 (h : Held m₀ c₀ l s) (pc a : ℕ) (v : U8) :
    Held m₀ c₀ ((a, v) :: l) (finalState (cpuWrite8 hardware pc a v s)) := by
  refine cpuWrite8_final v (fun hdenied => ?_) fun hallowed log mon => ?_
  · have hnone : ¬(a < 0x10000 ∧ s.priv.mapper.permission a &&& MAP_WRITABLE ≠ 0) := by
      rintro ⟨ha, hwritable⟩
      exact hdenied ⟨⟨ha, .inr ((h.mapped.writable_iff ha).mpr hwritable)⟩,
        h.mapped.target_attached ha⟩
    have hother : a ≠ 0xFFDE ∧ a ≠ 0xFFDF := by
      constructor
      all_goals
        rintro rfl
        exact hnone ⟨by decide, by rw [Mapper.permission, if_pos (by decide)]; decide⟩
    exact h.skip v hother fun htakes => hnone ⟨htakes.1, htakes.2.2.1⟩
  · obtain ⟨ha, hlet⟩ := hallowed
    have htraced : Held m₀ c₀ l (s.traced log mon) := Untraced.traced log mon s h
    have hwritable := (h.mapped.writable_iff ha).mp (hlet.resolve_left (by simp [h.running]))
    by_cases hio : Io a
    · exact htraced.ioWrite v hio pc
    · exact htraced.memoryWrite v ha hio hwritable pc

end Held

/-! ## Whole runs -/

instance : Bus (Board Priv) := Debugger.boardBus hardware

theorem held_follows : FollowsStores (Held m₀ c₀) where
  read8 _ pc a := cpuRead8_keeps (fun _ _ => read_keeps pc _ _) a
  read16 _ pc a := cpuRead16_keeps (fun _ _ => read_keeps pc _ _) a
  write8 _ pc a v _ h := h.write8 pc a v
  simError _ := Access.simError_keeps
  running _ _ h := h.frame rfl rfl rfl rfl h.running.symm rfl

/-- Whatever the processor and the console do, a read outside the I/O registers gets what was last
stored at the place that the mapper now selects for it, through whichever window that was, and the
registers of the mapper are as the stores have left them. The work of `machine_update` and of the
tick is on the console. -/
theorem read_lastStored (s₀ : Cpu (Board Priv)) (hmapped : Mapped s₀.bus)
    (hrunning : s₀.bus.cpuRunning = true) (xs : List (Moment (Console → Console))) :
    let s := finalState (runAll (Moment.perform setConsole) xs s₀)
    ∃ es, s.trace = es ++ s₀.trace ∧
      s.bus.priv.mapper = mapping.registers s₀.bus.priv.mapper (stores es) ∧
      ∀ pc a, a < 0x10000 → ¬Io a → ¬s.bus.priv.mapper.Past a 0 →
        ∃ t, cpuRead8 hardware pc a s.bus = .ok ((mapping.lastAt s₀.bus.priv.mapper
            (s.bus.priv.mapper.served a) (stores es)).getD
          (s₀.bus.mem (s.bus.priv.mapper.served a).1 (s.bus.priv.mapper.served a).2)) t := by
  intro s
  have hconsole (l : List (ℕ × U8)) (f : Console → Console) (b : Board Priv)
      (h : Held s₀.bus.priv.mapper (fun p => s₀.bus.mem p.1 p.2) l b) :
      Held s₀.bus.priv.mapper (fun p => s₀.bus.mem p.1 p.2) l (setConsole f b) :=
    h.frame rfl rfl rfl rfl rfl rfl
  have hrecorded := held_follows.run hconsole xs s₀ ⟨hmapped, hrunning, Translation.Holds.start _ _⟩
  obtain ⟨es, hes, hheld⟩ := hrecorded
  refine ⟨es, hes, hheld.holds.registers, fun pc a ha hio hin => ?_⟩
  have hpast := hheld.mapped.past_iff ha (k := 0) (.inl rfl)
  have hinside : Inside a s.bus := by
    by_contra hout
    exact hin (hpast.mp (not_lt.mp hout))
  obtain ⟨e, hread⟩ := hheld.mapped.cpuRead8_served pc ha hio hinside
  exact ⟨s.bus.record e, hread.trans (congrArg (EStateM.Result.ok · (s.bus.record e))
    (hheld.holds.memory (s.bus.priv.mapper.served a)))⟩

theorem read_lastStored_nop : ∃ s₀ : Cpu (Board Priv), ∃ es,
    (finalState (runAll (Moment.perform setConsole) [.cpu .insn] s₀)).trace = es ++ s₀.trace ∧
      (finalState (runAll (Moment.perform setConsole) [.cpu .insn] s₀)).bus.priv.mapper
        = mapping.registers s₀.bus.priv.mapper (stores es) := by
  obtain ⟨b, -, hb, -, hrunning⟩ := configured_run false (fun _ => 0x12) none none []
  obtain ⟨es, hes, hmapper, -⟩ := read_lastStored (Cpu.powerOn b) hb hrunning [.cpu .insn]
  exact ⟨Cpu.powerOn b, es, hes, hmapper⟩

end Exec09.Multicomp
