import Exec09.Machines.Wpc

/-! # The bit address of the wpc ASIC

The program writes an address and the number of a bit behind it, and reads the
address of the byte in two halves and a mask for the bit. The low half gets the
number of whole bytes added, but a carry out of it is not added to the high half.
-/
namespace Exec09.Wpc
open Foundation

/-- The registers that can be written. -/
inductive ShiftReg
  | addrHigh | addrLow | bit
  deriving DecidableEq

def ShiftReg.addr : ShiftReg → ℕ
  | addrHigh => 0x3FF4
  | addrLow => 0x3FF5
  | bit => 0x3FF6

/-- The two halves of the address and the bit number that have been written. -/
structure Shift where
  high : U8
  low : U8
  bit : U8
  deriving DecidableEq

structure ShiftWrite where
  reg : ShiftReg
  val : U8
  deriving DecidableEq

namespace ShiftWrite

def perform (w : ShiftWrite) : M Unit := wpcAsicWrite (w.reg.addr - WPC_ASIC_BASE) w.val

def apply (r : Shift) (w : ShiftWrite) : Shift :=
  match w.reg with
  | .addrHigh => { r with high := w.val }
  | .addrLow => { r with low := w.val }
  | .bit => { r with bit := w.val }

end ShiftWrite

/-- What has been written after a reset. -/
def shiftAfter (ws : List ShiftWrite) : Shift := ws.foldl ShiftWrite.apply ⟨0, 0, 0⟩

/-- The address of the byte with the bit, and the mask for it. -/
def Shift.byte (r : Shift) : U16 := r.high ++ r.low + (r.bit / 8).setWidth 16
def Shift.mask (r : Shift) : U8 := 1 <<< (r.bit.toNat % 8)

/-- The three registers read as the address of the byte, in two halves, and the mask. -/
def Linear (r : Shift) (s : Board Priv) : Prop :=
  ∃ high low, wpcAsicRead (ShiftReg.addrHigh.addr - WPC_ASIC_BASE) s = .ok high s ∧
    wpcAsicRead (ShiftReg.addrLow.addr - WPC_ASIC_BASE) s = .ok low s ∧ high ++ low = r.byte ∧
    wpcAsicRead (ShiftReg.bit.addr - WPC_ASIC_BASE) s = .ok r.mask s

/-- The registers of the ASIC have these values. -/
structure Shifted (r : Shift) (s : Board Priv) : Prop where
  high : s.priv.asic.shiftaddr.extractLsb' 8 8 = r.high
  low : s.priv.asic.shiftaddr.extractLsb' 0 8 = r.low
  bit : s.priv.asic.shiftbit = r.bit.setWidth 16

theorem wpcAsicReset_shifted (dev : ℕ) (s : Board Priv) :
    ∃ t, wpcAsicReset dev s = .ok () t ∧ Shifted ⟨0, 0, 0⟩ t := by
  have hhigh : (0#16).extractLsb' 8 8 = 0#8 := by decide
  have hlow : (0#16).extractLsb' 0 8 = 0#8 := by decide
  exact ⟨_, rfl, hhigh, hlow, rfl⟩

theorem ShiftReg.write_eq (reg : ShiftReg) (val : U8) :
    wpcAsicWrite (reg.addr - WPC_ASIC_BASE) val = writeRegister reg.addr val := by
  rw [wpcAsicWrite, Nat.sub_add_cancel]
  cases reg <;> decide

theorem ShiftReg.read_eq (reg : ShiftReg) :
    wpcAsicRead (reg.addr - WPC_ASIC_BASE) = readRegister reg.addr := by
  rw [wpcAsicRead, Nat.sub_add_cancel]
  cases reg <;> decide

/-! ## The halves of the address -/

theorem setHigh_high (a : U16) (val : U8) :
    (a &&& 0x00FF#16 ||| val.setWidth 16 <<< 8).extractLsb' 8 8 = val := by
  ext i hi
  interval_cases i <;> simp

theorem setHigh_low (a : U16) (val : U8) :
    (a &&& 0x00FF#16 ||| val.setWidth 16 <<< 8).extractLsb' 0 8 = a.extractLsb' 0 8 := by
  ext i hi
  interval_cases i <;> simp

theorem setLow_high (a : U16) (val : U8) :
    (a &&& 0xFF00#16 ||| val.setWidth 16).extractLsb' 8 8 = a.extractLsb' 8 8 := by
  ext i hi
  interval_cases i <;> simp

theorem setLow_low (a : U16) (val : U8) :
    (a &&& 0xFF00#16 ||| val.setWidth 16).extractLsb' 0 8 = val := by
  ext i hi
  interval_cases i <;> simp

theorem ShiftWrite.perform_shifted (w : ShiftWrite) {r : Shift} {s : Board Priv} (h : Shifted r s) :
    ∃ t, w.perform s = .ok () t ∧ Shifted (apply r w) t := by
  obtain ⟨reg, val⟩ := w
  rw [perform, ShiftReg.write_eq]
  cases reg with
  | addrHigh => exact ⟨_, rfl, setHigh_high _ val, (setHigh_low _ val).trans h.low, h.bit⟩
  | addrLow => exact ⟨_, rfl, (setLow_high _ val).trans h.high, setLow_low _ val, h.bit⟩
  | bit => exact ⟨_, rfl, h.high, h.low, rfl⟩

/-- By induction on the writes: the registers have the last values. -/
theorem runAll_shifted (ws : List ShiftWrite) {r : Shift} {s : Board Priv} (h : Shifted r s) :
    ∃ t, runAll ShiftWrite.perform ws s = .ok () t ∧ Shifted (ws.foldl ShiftWrite.apply r) t := by
  induction ws generalizing r s with
  | nil => exact ⟨s, rfl, h⟩
  | cons w ws ih =>
    obtain ⟨u, hfirst, hu⟩ := w.perform_shifted h
    obtain ⟨t, hrest, ht⟩ := ih hu
    exact ⟨t, (run_bind_ok hfirst).trans hrest, ht⟩

/-- What the halves read as. -/
theorem halves_iff (r : Shift) :
    r.high ++ BitVec.ofNat 8 (r.low.toNat + r.bit.toNat / 8) = r.byte ↔
      r.low.toNat + r.bit.toNat / 8 < 256 := by
  have hhigh : r.high.toNat < 2 ^ 8 := r.high.isLt
  have hlow : r.low.toNat < 2 ^ 8 := r.low.isLt
  have hbit : r.bit.toNat < 2 ^ 8 := r.bit.isLt
  have hbyte : r.byte.toNat =
      (r.high.toNat * 256 + r.low.toNat + r.bit.toNat / 8) % 65536 := by
    have hcount : ((r.bit / 8).setWidth 16).toNat = r.bit.toNat / 8 := by
      rw [BitVec.toNat_setWidth, BitVec.toNat_udiv, Nat.mod_eq_of_lt]
      · rfl
      · exact Nat.lt_of_le_of_lt (Nat.div_le_self _ _) (by omega)
    rw [Shift.byte, BitVec.toNat_add, append_toNat, hcount]
  have hread : (r.high ++ BitVec.ofNat 8 (r.low.toNat + r.bit.toNat / 8)).toNat =
      r.high.toNat * 256 + (r.low.toNat + r.bit.toNat / 8) % 256 := by
    rw [append_toNat, BitVec.toNat_ofNat]
  rw [← BitVec.toNat_inj, hbyte, hread]
  omega

theorem Shifted.linear_iff {r : Shift} {s : Board Priv} (h : Shifted r s) :
    Linear r s ↔ r.low.toNat + r.bit.toNat / 8 < 256 := by
  have hbit : s.priv.asic.shiftbit.toNat = r.bit.toNat := by
    rw [h.bit, BitVec.toNat_setWidth]
    have hlt : r.bit.toNat < 2 ^ 8 := r.bit.isLt
    omega
  have hhigh : wpcAsicRead (ShiftReg.addrHigh.addr - WPC_ASIC_BASE) s = .ok r.high s := by
    rw [ShiftReg.read_eq, ← h.high]
    rfl
  have hlow : wpcAsicRead (ShiftReg.addrLow.addr - WPC_ASIC_BASE) s =
      .ok (BitVec.ofNat 8 (r.low.toNat + r.bit.toNat / 8)) s := by
    have hbyte : s.priv.asic.shiftaddr.toNat &&& 0xFF = r.low.toNat := by
      rw [← h.low, BitVec.extractLsb'_toNat, Nat.shiftRight_zero]
      exact Nat.and_two_pow_sub_one_eq_mod _ 8
    rw [ShiftReg.read_eq, ← hbyte, ← hbit]
    rfl
  have hmask : wpcAsicRead (ShiftReg.bit.addr - WPC_ASIC_BASE) s = .ok r.mask s := by
    have hmask : BitVec.ofNat 8 (1 <<< (r.bit.toNat % 8)) = r.mask := by
      rw [Shift.mask, ← BitVec.toNat_inj]
      simp
    rw [ShiftReg.read_eq, ← hmask, ← hbit]
    rfl
  rw [← halves_iff, Linear]
  constructor
  · rintro ⟨high, low, hhigh', hlow', hbyte, -⟩
    rw [hhigh] at hhigh'
    rw [hlow] at hlow'
    cases hhigh'
    cases hlow'
    exact hbyte
  · intro hbyte
    exact ⟨_, _, hhigh, hlow, hbyte, hmask⟩

/-- After any writes the registers read as the address of the byte exactly if the low byte of the
address has no carry. -/
theorem shift_linear_iff (dev : ℕ) (ws : List ShiftWrite) (s : Board Priv) :
    (∃ t, (do wpcAsicReset dev; runAll ShiftWrite.perform ws) s = .ok () t ∧
        Linear (shiftAfter ws) t) ↔
      (shiftAfter ws).low.toNat + (shiftAfter ws).bit.toNat / 8 < 256 := by
  obtain ⟨u, hreset, hu⟩ := wpcAsicReset_shifted dev s
  obtain ⟨t, hrun, ht⟩ := runAll_shifted ws hu
  rw [run_bind_ok hreset, hrun]
  constructor
  · rintro ⟨t', heq, hlinear⟩
    cases heq
    exact ht.linear_iff.mp hlinear
  · intro hlow
    exact ⟨t, rfl, ht.linear_iff.mpr hlow⟩

/-- Bit 8 behind address 0x00FF is in the byte at 0x0100, but 0x0000 is read. -/
theorem carry_lost : ¬∀ (dev : ℕ) (ws : List ShiftWrite) (s : Board Priv),
    ∃ t, (do wpcAsicReset dev; runAll ShiftWrite.perform ws) s = .ok () t ∧
      Linear (shiftAfter ws) t := by
  intro h
  obtain ⟨t, hrun, hlinear⟩ := h 1 [⟨.addrLow, 0xFF⟩, ⟨.bit, 8⟩] (Board.start .wpcFault false
    ⟨Asic.zero, false, [], [], 0, 0, 0, []⟩)
  obtain ⟨u, hreset, hu⟩ := wpcAsicReset_shifted 1 (Board.start .wpcFault false
    ⟨Asic.zero, false, [], [], 0, 0, 0, []⟩)
  obtain ⟨t', hruns, ht⟩ := runAll_shifted [⟨.addrLow, 0xFF⟩, ⟨.bit, 8⟩] hu
  rw [run_bind_ok hreset, hruns] at hrun
  cases hrun
  exact absurd (ht.linear_iff.mp hlinear) (by decide)

end Exec09.Wpc
