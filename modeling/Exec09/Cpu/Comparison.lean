import Exec09.Cpu.NextInsn
import Exec09.Cpu.Run
import Exec09.Cpu.WordArithmetic

/-! # Comparisons and branches

A comparison leaves N, Z, V and C of the difference behind. Each condition of
the branch instructions then is a relation of the two operands.
-/
namespace Exec09
open Foundation Foundation.Radix
variable {β : Type}

/-- The flags of the difference of `a` and `b`, numbers below `2 h`. -/
structure Compared (h a b : ℕ) (f : Flags) : Prop where
  N : f.N &&& 0x80 ≠ 0 ↔ h ≤ (2 * h + a - b) % (2 * h)
  Z : f.Z = 0 ↔ a = b
  OV : f.OV &&& 0x80 ≠ 0 ↔ ¬Fits h (signed h a - signed h b)
  C : f.C ≠ 0 ↔ a < b

/-- What a condition says of the operands. -/
def Cond.Means (h a b : ℕ) : Cond → Prop
  | .HI => b < a
  | .LS => a ≤ b
  | .HS => b ≤ a
  | .LO => a < b
  | .NE => a ≠ b
  | .EQ => a = b
  | .VC => Fits h (signed h a - signed h b)
  | .VS => ¬Fits h (signed h a - signed h b)
  | .PL => (2 * h + a - b) % (2 * h) < h
  | .MI => h ≤ (2 * h + a - b) % (2 * h)
  | .GE => signed h b ≤ signed h a
  | .LT => signed h a < signed h b
  | .GT => signed h b < signed h a
  | .LE => signed h a ≤ signed h b

theorem difference_mod {h a b : ℕ} (ha : a < 2 * h) (hb : b < 2 * h) :
    (2 * h + a - b) % (2 * h) = if b ≤ a then a - b else 2 * h + a - b := by
  split
  · have hsum : 2 * h + a - b = 2 * h + (a - b) := by omega
    rw [hsum, Nat.add_mod_left, Nat.mod_eq_of_lt (by omega)]
  · exact Nat.mod_eq_of_lt (by omega)

/-- The sign of the difference, corrected by the overflow, is the signed order. -/
theorem sign_overflow {h a b : ℕ} (ha : a < 2 * h) (hb : b < 2 * h) :
    ¬(h ≤ (2 * h + a - b) % (2 * h) ↔ ¬Fits h (signed h a - signed h b)) ↔
      signed h a < signed h b := by
  rw [difference_mod ha hb, Fits, signed, signed]
  split <;> split <;> split <;> omega

theorem Compared.holds_iff {h a b : ℕ} {f : Flags} (hf : Compared h a b f) (ha : a < 2 * h)
    (hb : b < 2 * h) (c : Cond) : c.holds f = true ↔ c.Means h a b := by
  have hLT : (f.N ^^^ f.OV) &&& 0x80 ≠ 0 ↔ signed h a < signed h b := by
    rw [sign_xor, hf.N, hf.OV]
    exact sign_overflow ha hb
  have hGE : (f.N ^^^ f.OV) &&& 0x80 = 0 ↔ signed h b ≤ signed h a := by
    rw [← not_lt, ← hLT, not_not]
  have hne : signed h a = signed h b ↔ a = b := by
    simp only [signed]
    split <;> split <;> omega
  have hC : f.C = 0 ↔ b ≤ a := by
    rw [← not_lt, ← hf.C, not_not]
  have hZ := hf.Z
  cases c with
  | HI =>
    simp only [Cond.holds, Cond.Means, decide_eq_true_eq]
    rw [Ne, hZ, hC]
    omega
  | LS =>
    simp only [Cond.holds, Cond.Means, decide_eq_true_eq]
    rw [hf.C, hZ]
    omega
  | HS =>
    simp only [Cond.holds, Cond.Means, decide_eq_true_eq]
    exact hC
  | LO =>
    simp only [Cond.holds, Cond.Means, decide_eq_true_eq]
    exact hf.C
  | NE =>
    simp only [Cond.holds, Cond.Means, decide_eq_true_eq]
    exact not_congr hZ
  | EQ =>
    simp only [Cond.holds, Cond.Means, decide_eq_true_eq]
    exact hZ
  | VC =>
    simp only [Cond.holds, Cond.Means, decide_eq_true_eq]
    rw [← not_iff_not]
    exact hf.OV
  | VS =>
    simp only [Cond.holds, Cond.Means, decide_eq_true_eq]
    exact hf.OV
  | PL =>
    simp only [Cond.holds, Cond.Means, decide_eq_true_eq]
    rw [← not_iff_not, not_lt]
    exact hf.N
  | MI =>
    simp only [Cond.holds, Cond.Means, decide_eq_true_eq]
    exact hf.N
  | GE =>
    simp only [Cond.holds, Cond.Means, decide_eq_true_eq]
    exact hGE
  | LT =>
    simp only [Cond.holds, Cond.Means, decide_eq_true_eq]
    exact hLT
  | GT =>
    simp only [Cond.holds, Cond.Means, decide_eq_true_eq]
    rw [hGE, Ne, hZ, ← hne]
    omega
  | LE =>
    simp only [Cond.holds, Cond.Means, decide_eq_true_eq]
    rw [hLT, hZ, ← hne]
    omega

/-! ## The comparisons -/

theorem sub_compared (f : Flags) {a b : ℕ} (ha : a < 256) (hb : b < 256) :
    Compared 128 a b (sub f a b).2 := by
  have hcarry : ({ f with C := 0 } : Flags).carry = 0 := rfl
  have hfst := sbc_fst { f with C := 0 } ha hb
  have hC := sbc_C { f with C := 0 } ha hb
  have hOV := sbc_OV { f with C := 0 } ha hb
  rw [← sub_eq_sbc, hcarry] at hfst hC hOV
  have hN : (sub f a b).2.N = (sub f a b).1 := rfl
  have hZ : (sub f a b).2.Z = (sub f a b).1 := rfl
  refine ⟨?_, ?_, ?_, ?_⟩
  · rw [hN, hfst, and_sign_ne_zero]
    omega
  · rw [hZ, hfst]
    omega
  · rw [hOV, Nat.cast_zero, sub_zero]
    rfl
  · rw [hC, Nat.add_zero]

theorem subd_compared (f : Flags) {a b : ℕ} (ha : a < 65536) (hb : b < 65536) :
    Compared 32768 a b (subd f a b).2 := by
  have hfst := subd_fst f ha hb
  have hN : (subd f a b).2.N = (subd f a b).1 >>> 8 := rfl
  have hZ : (subd f a b).2.Z = (subd f a b).1 := rfl
  refine ⟨?_, ?_, subd_OV f ha hb, subd_C f ha hb⟩
  · rw [hN, hfst, shift_sign_ne_zero]
    omega
  · rw [hZ, hfst]
    omega

/-! ## The branches -/

section Branches
variable [Bus β] {s t : Cpu β} {v : ℕ}

theorem immByte_PC (h : immByte s = .ok v t) : t.PC = uint (s.PC + 1) := by
  obtain ⟨w, b, -, -, rfl⟩ := of_immByte_ok h
  rfl

theorem immWord_PC (h : immWord s = .ok v t) : t.PC = uint (s.PC + 2) := by
  rw [immWord, run_bind_ok (run_look _ _)] at h
  obtain ⟨w, u, hr, hrest⟩ := of_run_bind_ok h
  rw [read16_run] at hr
  cases hb : Bus.cpuRead16 (getPc s) s.PC s.bus with
  | ok x b =>
    rw [hb] at hr
    cases hr
    cases hrest
    rfl
  | error e b =>
    rw [hb] at hr
    cases hr

theorem uint_add_mod (p n : ℕ) (d : ℤ) : ((uint (p + n) : ℕ) + d : ℤ) % 65536 = (p + n + d) % 65536 := by
  simp only [uint, Word.trunc]
  push_cast
  omega

/-- `branch` of the source, on the offset `v`. -/
theorem branch_taken (h : immByte s = .ok v t) :
    ∃ u, branch true s = .ok () u ∧ (u.PC : ℤ) = (s.PC + 1 + Int.bmod v 256) % 65536 := by
  have hbra : bra s = .ok () { t with PC := uint (t.PC + int8 v) &&& 0xffff } := by
    rw [bra, run_bind_ok h]
    rfl
  refine ⟨{ t with PC := uint (t.PC + int8 v) &&& 0xffff, cpuClk := t.cpuClk - 3 }, ?_, ?_⟩
  · rw [branch, takeBranch, if_pos rfl, run_bind_ok hbra]
    rfl
  · dsimp only
    rw [relative8, immByte_PC h, uint_add_mod, Nat.cast_one]

theorem branch_skipped :
    ∃ u, branch false s = .ok () u ∧ u.PC = (s.PC + 1) % 65536 :=
  ⟨_, rfl, uint_and_65535 _⟩

theorem longBranch_taken (h : immWord s = .ok v t) :
    ∃ u, longBranch true s = .ok () u ∧ (u.PC : ℤ) = (s.PC + 2 + Int.bmod v 65536) % 65536 := by
  have hbra : longBra s = .ok () { t with PC := uint (t.PC + int16 v) &&& 0xffff } := by
    rw [longBra, run_bind_ok h]
    rfl
  refine ⟨{ t with PC := uint (t.PC + int16 v) &&& 0xffff, cpuClk := t.cpuClk - 6 }, ?_, ?_⟩
  · rw [longBranch, if_pos rfl, run_bind_ok hbra]
    rfl
  · dsimp only
    rw [relative16, immWord_PC h, uint_add_mod, Nat.cast_ofNat]

theorem longBranch_skipped :
    ∃ u, longBranch false s = .ok () u ∧ u.PC = (s.PC + 2) % 65536 :=
  ⟨_, rfl, uint_and_65535 _⟩

end Branches

/-- The conditions and the branches follow the order of `a` and `b` on the flags `f`. -/
structure Decides (β : Type) [Bus β] (h a b : ℕ) (f : Flags) (c : Cond) : Prop where
  holds : c.holds f = true ↔ c.Means h a b
  taken : c.Means h a b → ∀ s : Cpu β, s.flags = f →
    (∀ v t, immByte s = .ok v t → ∃ u, branch (c.holds s.flags) s = .ok () u ∧
      (u.PC : ℤ) = (s.PC + 1 + Int.bmod v 256) % 65536) ∧
    ∀ v t, immWord s = .ok v t → ∃ u, longBranch (c.holds s.flags) s = .ok () u ∧
      (u.PC : ℤ) = (s.PC + 2 + Int.bmod v 65536) % 65536
  skipped : ¬c.Means h a b → ∀ s : Cpu β, s.flags = f →
    (∃ u, branch (c.holds s.flags) s = .ok () u ∧ u.PC = (s.PC + 1) % 65536) ∧
    ∃ u, longBranch (c.holds s.flags) s = .ok () u ∧ u.PC = (s.PC + 2) % 65536

theorem Compared.decides [Bus β] {h a b : ℕ} {f : Flags} (hf : Compared h a b f) (ha : a < 2 * h)
    (hb : b < 2 * h) (c : Cond) : Decides β h a b f c where
  holds := hf.holds_iff ha hb c
  taken hc s hs := by
    have hcond : c.holds s.flags = true := by
      rw [hs]
      exact (hf.holds_iff ha hb c).mpr hc
    rw [hcond]
    exact ⟨fun v t hv => branch_taken hv, fun v t hv => longBranch_taken hv⟩
  skipped hc s hs := by
    have hcond : c.holds s.flags = false := by
      rw [hs, ← Bool.not_eq_true]
      exact fun h => hc ((hf.holds_iff ha hb c).mp h)
    rw [hcond]
    exact ⟨branch_skipped, longBranch_skipped⟩

/-- After a comparison of bytes or of words every branch goes by the order of the operands. -/
theorem comparisons_decide [Bus β] (f : Flags) (c : Cond) :
    (∀ a b, a < 256 → b < 256 →
      Decides β 128 a b (cmp f a b) c ∧ Decides β 128 a b (sub f a b).2 c) ∧
    ∀ a b, a < 65536 → b < 65536 →
      Decides β 32768 a b (cmp16 f a b) c ∧ Decides β 32768 a b (subd f a b).2 c := by
  constructor
  · intro a b ha hb
    have h := (sub_compared f ha hb).decides (β := β) ha hb c
    exact ⟨h, h⟩
  · intro a b ha hb
    have h := (subd_compared f ha hb).decides (β := β) ha hb c
    exact ⟨h, h⟩

/-- -128 is below 1, although the difference is positive. -/
theorem comparisons_decide_overflow : Decides FlatRam 128 0x80 1 (cmp ⟨0, 0, 0, 0, 0⟩ 0x80 1) .LT :=
  ((comparisons_decide ⟨0, 0, 0, 0, 0⟩ .LT).1 0x80 1 (by decide) (by decide)).1

end Exec09
