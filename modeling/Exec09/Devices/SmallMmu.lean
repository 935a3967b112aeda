import Exec09.Cpu.State
import Exec09.Bus.Map

/-! # The small MMU of eon2

Eight registers. The first selects one of sixteen slots of 4K, and the last two
are the page and the permissions of the selected slot. The selector is a byte
of which any value is stored, and it is used as an index without a test.
-/
namespace Exec09
open Foundation

structure SmallMmu where
  globalRegs : ℕ → U8
  slotRegs : ℕ → ℕ → U8
  /-- The number of the device behind the MMU. -/
  realdev : ℕ

namespace SmallMmu

/-- The device together with the bus map, which it writes. -/
abbrev M := EStateM Stop (SmallMmu × BusMaps)

def setGlobal (reg : ℕ) (val : U8) (m : SmallMmu) : SmallMmu :=
  { m with globalRegs := fun r => if r = reg then val else m.globalRegs r }

def setSlot (slot reg : ℕ) (val : U8) (m : SmallMmu) : SmallMmu :=
  { m with slotRegs := fun s r => if s = slot ∧ r = reg then val else m.slotRegs s r }

/-- The call of `bus_map` for a slot. -/
def slotCall (m : SmallMmu) (slot : ℕ) : MapCall where
  addr := slot * 0x1000
  devid := m.realdev
  offset := (m.slotRegs slot 0).toNat * 0x1000
  len := 0x1000
  flags := (m.slotRegs slot 1).toNat &&& MAP_READWRITE

/-- The slot selected by `SMR_SLOT`, as an index of `slot_regs`. -/
def selected : M ℕ := do
  let s ← get
  let slot := (s.1.globalRegs 0).toNat
  if slot < 16 then return slot else throw (.fatal .arrayIndex)

def smallMmuRead (addr : ℕ) : M U8 := do
  let s ← get
  if addr < 6 then return s.1.globalRegs addr
  else do
    let slot ← selected
    return s.1.slotRegs slot (addr - 6)

def remap (slot : ℕ) : M Unit := do
  let s ← get
  match busMap (s.1.slotCall slot) s.2 with
  | some maps => modify fun s => (s.1, maps)
  | none => throw (.fatal .mapIndex)

def smallMmuWrite (addr : ℕ) (val : U8) : M Unit := do
  if addr < 6 then modify fun s => (s.1.setGlobal addr val, s.2)
  else do
    let slot ← selected
    modify fun s => (s.1.setSlot slot (addr - 6) val, s.2)
  if addr = 6 ∨ addr = 7 then do
    let slot ← selected
    remap slot

/-- The loop of `small_mmu_reset`, from `page` on. -/
def resetFrom : (count page : ℕ) → M Unit
  | 0, _ => pure ()
  | count + 1, page => do
    smallMmuWrite 0 (BitVec.ofNat 8 page)
    smallMmuWrite 6 (BitVec.ofNat 8 page)
    smallMmuWrite 7 (BitVec.ofNat 8 MAP_READWRITE)
    resetFrom count (page + 1)

def reset : M Unit := resetFrom 16 0

/-! ## Accesses of the guest -/

inductive RegAccess
  | read (reg : Fin 8)
  | write (reg : Fin 8) (val : U8)

def RegAccess.perform : RegAccess → M Unit
  | .read reg => do let _ ← smallMmuRead reg
  | .write reg val => smallMmuWrite reg val

def RegAccess.reg : RegAccess → Fin 8
  | .read reg => reg
  | .write reg _ => reg

/-- The slot selected after the access, of the one selected before it. -/
def RegAccess.select (slot : ℕ) : RegAccess → ℕ
  | .read _ => slot
  | .write reg val => if reg = 0 then val.toNat else slot

/-- Every access to a register of the selected slot finds one of the sixteen selected; `slot` is
the selection before the accesses. -/
def SlotInRange : (slot : ℕ) → List RegAccess → Prop
  | _, [] => True
  | slot, e :: es => (6 ≤ e.reg.val → slot < 16) ∧ SlotInRange (e.select slot) es

theorem slotCall_aligned (m : SmallMmu) {slot : ℕ} (h : slot < 16) : (m.slotCall slot).Aligned := by
  have hpage : (m.slotRegs slot 0).toNat < 2 ^ 8 := (m.slotRegs slot 0).isLt
  constructor <;> simp only [slotCall] <;> omega

theorem selected_run (s : SmallMmu × BusMaps) :
    selected s = if (s.1.globalRegs 0).toNat < 16 then .ok (s.1.globalRegs 0).toNat s
      else .error (.fatal .arrayIndex) s := by
  rw [selected, run_bind_ok run_get]
  by_cases h : (s.1.globalRegs 0).toNat < 16
  · rw [if_pos h, if_pos h]
    rfl
  · rw [if_neg h, if_neg h]
    rfl

theorem remap_run {slot : ℕ} (h : slot < 16) (s : SmallMmu × BusMaps) :
    remap slot s = .ok () (s.1, (s.1.slotCall slot).layer.stamp BusEntry.fixed s.2) := by
  rw [remap, run_bind_ok run_get, busMap_eq (slotCall_aligned s.1 h)]
  rfl

theorem smallMmuWrite_global {addr : ℕ} (h : addr < 6) (val : U8) (s : SmallMmu × BusMaps) :
    smallMmuWrite addr val s = .ok () (s.1.setGlobal addr val, s.2) := by
  have h₁ : ¬(addr = 6 ∨ addr = 7) := by omega
  simp only [smallMmuWrite, h, h₁, if_true, if_false]
  rfl

/-- A write to a register of the selected slot maps it. -/
theorem smallMmuWrite_slot {addr : ℕ} (h : addr = 6 ∨ addr = 7) (val : U8)
    {s : SmallMmu × BusMaps} (hslot : (s.1.globalRegs 0).toNat < 16) :
    smallMmuWrite addr val s = .ok () (s.1.setSlot (s.1.globalRegs 0).toNat (addr - 6) val,
      ((s.1.setSlot (s.1.globalRegs 0).toNat (addr - 6) val).slotCall
        (s.1.globalRegs 0).toNat).layer.stamp BusEntry.fixed s.2) := by
  generalize hn : (s.1.globalRegs 0).toNat = slot at hslot ⊢
  have hsel : selected s = .ok slot s := by rw [selected_run, hn, if_pos hslot]
  have hmod : (modify fun s : SmallMmu × BusMaps => (s.1.setSlot slot (addr - 6) val, s.2) : M Unit) s =
      .ok () (s.1.setSlot slot (addr - 6) val, s.2) := rfl
  have hsel' : selected (s.1.setSlot slot (addr - 6) val, s.2) =
      .ok slot (s.1.setSlot slot (addr - 6) val, s.2) := by
    have hn' : ((s.1.setSlot slot (addr - 6) val).globalRegs 0).toNat = slot := hn
    rw [selected_run, hn', if_pos hslot]
  rw [smallMmuWrite, if_neg (by omega), run_bind_ok hsel, run_bind_ok hmod, if_pos h]
  beta_reduce
  rw [run_bind_ok hsel', remap_run hslot]

theorem smallMmuWrite_outside {addr : ℕ} (h : ¬addr < 6) (val : U8) {s : SmallMmu × BusMaps}
    (hslot : ¬(s.1.globalRegs 0).toNat < 16) :
    smallMmuWrite addr val s = .error (.fatal .arrayIndex) s := by
  have hsel : selected s = .error (.fatal .arrayIndex) s := by rw [selected_run, if_neg hslot]
  rw [smallMmuWrite, if_neg h, run_bind_error hsel]

theorem RegAccess.perform_ok (e : RegAccess) {s : SmallMmu × BusMaps}
    (h : 6 ≤ e.reg.val → (s.1.globalRegs 0).toNat < 16) :
    ∃ t, e.perform s = .ok () t ∧
      (t.1.globalRegs 0).toNat = e.select (s.1.globalRegs 0).toNat := by
  cases e with
  | read reg =>
    by_cases hreg : reg.val < 6
    · refine ⟨s, ?_, rfl⟩
      have hread : smallMmuRead reg s = .ok (s.1.globalRegs reg) s := by
        rw [smallMmuRead, run_bind_ok run_get, if_pos hreg]
        rfl
      exact run_bind_ok hread
    · refine ⟨s, ?_, rfl⟩
      have hsel : selected s = .ok (s.1.globalRegs 0).toNat s := by
        rw [selected_run, if_pos (h (Nat.le_of_not_lt hreg))]
      have hread : smallMmuRead reg s =
          .ok (s.1.slotRegs (s.1.globalRegs 0).toNat (reg - 6)) s := by
        rw [smallMmuRead, run_bind_ok run_get, if_neg hreg, run_bind_ok hsel]
        rfl
      exact run_bind_ok hread
  | write reg val =>
    by_cases hreg : reg.val < 6
    · refine ⟨_, smallMmuWrite_global hreg val s, ?_⟩
      by_cases h₀ : reg = 0
      · simp [select, setGlobal, h₀]
      · have h₀' : ¬0 = reg.val := fun hc => h₀ (Fin.ext hc.symm)
        simp [select, setGlobal, h₀, h₀']
    · have hreg' : reg.val = 6 ∨ reg.val = 7 := by omega
      have hrun := smallMmuWrite_slot hreg' val (h (Nat.le_of_not_lt hreg))
      refine ⟨_, hrun, ?_⟩
      have h₀ : reg ≠ 0 := by
        rintro rfl
        exact hreg (by decide)
      simp [select, setSlot, h₀]

theorem RegAccess.perform_error (e : RegAccess) {s : SmallMmu × BusMaps}
    (h : ¬(6 ≤ e.reg.val → (s.1.globalRegs 0).toNat < 16)) :
    ∃ t, e.perform s = .error (.fatal .arrayIndex) t := by
  have hreg : ¬e.reg.val < 6 := fun hc => h fun hle => absurd hc (by omega)
  have hslot : ¬(s.1.globalRegs 0).toNat < 16 := fun hc => h fun _ => hc
  cases e with
  | read reg =>
    have hreg : ¬reg.val < 6 := hreg
    have hsel : selected s = .error (.fatal .arrayIndex) s := by rw [selected_run, if_neg hslot]
    have hread : smallMmuRead reg s = .error (.fatal .arrayIndex) s := by
      rw [smallMmuRead, run_bind_ok run_get, if_neg hreg, run_bind_error hsel]
    exact ⟨s, run_bind_error hread⟩
  | write reg val => exact ⟨s, smallMmuWrite_outside hreg val hslot⟩

theorem returned_accesses (es : List RegAccess) (s : SmallMmu × BusMaps) :
    returned (runAll RegAccess.perform es s) = true ↔ SlotInRange (s.1.globalRegs 0).toNat es := by
  induction es generalizing s with
  | nil => exact iff_of_true rfl trivial
  | cons e es ih =>
    rw [runAll, SlotInRange]
    by_cases h : 6 ≤ e.reg.val → (s.1.globalRegs 0).toNat < 16
    · obtain ⟨t, hrun, hslot⟩ := e.perform_ok h
      rw [run_bind_ok hrun, ih t, hslot]
      exact ⟨fun hs => ⟨h, hs⟩, fun hs => hs.2⟩
    · obtain ⟨t, hrun⟩ := e.perform_error h
      rw [run_bind_error hrun]
      exact iff_of_false Bool.false_ne_true fun hc => h hc.1

/-! ## From the reset on -/

theorem resetFrom_run (count page : ℕ) (hp : page + count ≤ 16) (s : SmallMmu × BusMaps) :
    ∃ t, resetFrom count page s = .ok () t ∧
      (t.1.globalRegs 0).toNat =
        if count = 0 then (s.1.globalRegs 0).toNat else page + count - 1 := by
  induction count generalizing page s with
  | zero => exact ⟨s, rfl, rfl⟩
  | succ count ih =>
    have hpage : (BitVec.ofNat 8 page).toNat = page := by
      rw [BitVec.toNat_ofNat]
      exact Nat.mod_eq_of_lt (by omega)
    obtain ⟨s₁, hrun₁, hslot₁⟩ := (RegAccess.write 0 (BitVec.ofNat 8 page)).perform_ok
      (s := s) fun h => absurd h (Nat.not_succ_le_zero 5)
    have hsel : (s₁.1.globalRegs 0).toNat = page := hslot₁.trans hpage
    obtain ⟨s₂, hrun₂, hslot₂⟩ := (RegAccess.write 6 (BitVec.ofNat 8 page)).perform_ok
      (s := s₁) fun _ => by omega
    have hsel₂ : (s₂.1.globalRegs 0).toNat = page := hslot₂.trans hsel
    obtain ⟨s₃, hrun₃, hslot₃⟩ := (RegAccess.write 7 (BitVec.ofNat 8 MAP_READWRITE)).perform_ok
      (s := s₂) fun _ => by omega
    have hsel₃ : (s₃.1.globalRegs 0).toNat = page := hslot₃.trans hsel₂
    obtain ⟨t, hrun, hslot⟩ := ih (page + 1) (by omega) s₃
    refine ⟨t, ?_, ?_⟩
    · exact (run_bind_ok hrun₁).trans ((run_bind_ok hrun₂).trans ((run_bind_ok hrun₃).trans hrun))
    · rw [hslot, hsel₃]
      by_cases h₀ : count = 0
      · simp [h₀]
      · rw [if_neg h₀, if_neg (by omega)]
        omega

/-- The reset leaves slot 15 selected. -/
theorem reset_run (start : SmallMmu × BusMaps) :
    ∃ t, reset start = .ok () t ∧ (t.1.globalRegs 0).toNat = 15 :=
  resetFrom_run 16 0 (by decide) start

/-! ## The map under the MMU -/

/-- The device behind the MMU is `d`, and every entry of the map satisfies `P`. -/
structure Covers (d : ℕ) (P : BusEntry → Prop) (s : SmallMmu × BusMaps) : Prop where
  realdev : s.1.realdev = d
  entries : ∀ b, P (s.2 b)

variable {d : ℕ} {P : BusEntry → Prop}

instance selected_gives : Gives (Covers d P) selected (· < 16) where
  gives := by
    intro s h
    rw [selected_run]
    by_cases hslot : (s.1.globalRegs 0).toNat < 16
    · rw [if_pos hslot]
      exact ⟨hslot, h⟩
    · rw [if_neg hslot]
      exact h

/-- The MMU maps nothing but its device. -/
theorem smallMmuWrite_keeps (hP : ∀ offset flags, P ⟨d, offset, flags⟩) (addr : ℕ) (val : U8) :
    Keeps (Covers d P) (smallMmuWrite addr val) := by
  have hglobal : Keeps (Covers d P)
      (modify fun s : SmallMmu × BusMaps => (s.1.setGlobal addr val, s.2) : M Unit) :=
    ⟨fun s h => ⟨h.realdev, h.entries⟩⟩
  have hslot (slot : { n // n < 16 }) : Keeps (Covers d P)
      (modify fun s : SmallMmu × BusMaps => (s.1.setSlot slot.1 (addr - 6) val, s.2) : M Unit) :=
    ⟨fun s h => ⟨h.realdev, h.entries⟩⟩
  have hremap (slot : { n // n < 16 }) : Keeps (Covers d P) (remap slot.1) := by
    refine ⟨fun s h => ?_⟩
    rw [remap_run slot.2]
    refine ⟨h.realdev, fun b => ?_⟩
    simp only [finalState, Layer.stamp]
    split
    · rw [← h.realdev] at hP
      exact hP _ _
    · exact h.entries b
  rw [smallMmuWrite]
  infer_instance

theorem reset_keeps (hP : ∀ offset flags, P ⟨d, offset, flags⟩) : Keeps (Covers d P) reset := by
  have hwrite := smallMmuWrite_keeps hP
  have hfrom (count page : ℕ) : Keeps (Covers d P) (resetFrom count page) := by
    induction count generalizing page with
    | zero => exact Keeps.pure ()
    | succ count ih =>
      rw [resetFrom]
      infer_instance
  exact hfrom 16 0

theorem smallMmuRead_keeps (addr : ℕ) : Keeps (Covers d P) (smallMmuRead addr) := by
  rw [smallMmuRead]
  infer_instance

/-- The accesses after the reset stay inside `slot_regs` and `busmaps` exactly if a slot below
sixteen is selected whenever its registers are used. -/
theorem smallMmu_inRange_iff (start : SmallMmu × BusMaps) (es : List RegAccess) :
    returned ((do reset; runAll RegAccess.perform es) start) = true ↔ SlotInRange 15 es := by
  obtain ⟨t, hrun, hslot⟩ := reset_run start
  rw [run_bind_ok hrun, returned_accesses, hslot]

/-- Selecting slot 16 and then writing its page leaves the array. -/
theorem smallMmu_slot16 :
    returned ((do reset; runAll RegAccess.perform [.write 0 16, .write 6 0])
      (⟨fun _ => 0, fun _ _ => 0, 1⟩, initialBusmaps)) = false := by
  have hout : ¬SlotInRange 15 [.write 0 16, .write 6 0] := fun h =>
    absurd (h.2.1 (by decide)) (by decide)
  obtain ⟨t, hrun, hslot⟩ := reset_run (⟨fun _ => 0, fun _ _ => 0, 1⟩, initialBusmaps)
  rw [← hslot, ← returned_accesses] at hout
  rw [run_bind_ok hrun]
  simpa using hout

end SmallMmu

end Exec09
