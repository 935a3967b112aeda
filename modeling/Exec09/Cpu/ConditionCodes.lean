import Exec09.Cpu.Instruction

/-! # The condition codes that the flag words stand for

The words `H N Z OV C` are a lazy representation: each is tested for one bit or
for zero only. `Flags.cc` is the abstraction to the five architectural bits,
`Cc.byte` their place in the CC register, and an operation on the words is
`Lazy` if its result and the bits after it depend on the bits before it only.
-/
namespace Exec09
open Foundation
variable {β : Type}

structure Cc where
  H : Bool
  N : Bool
  Z : Bool
  V : Bool
  C : Bool
  deriving DecidableEq, Repr

def Flags.cc (f : Flags) : Cc where
  H := f.H &&& 0x10 ≠ 0
  N := f.N &&& 0x80 ≠ 0
  Z := f.Z = 0
  V := f.OV &&& 0x80 ≠ 0
  C := f.C ≠ 0

def Cc.byte (c : Cc) : ℕ :=
  (if c.H then H_FLAG else 0) ||| (if c.N then N_FLAG else 0) ||| (if c.Z then Z_FLAG else 0) |||
    (if c.V then V_FLAG else 0) ||| (if c.C then C_FLAG else 0)

def Cc.ofByte (b : ℕ) : Cc where
  H := b &&& H_FLAG ≠ 0
  N := b &&& N_FLAG ≠ 0
  Z := b &&& Z_FLAG ≠ 0
  V := b &&& V_FLAG ≠ 0
  C := b &&& C_FLAG ≠ 0

theorem Cc.ofByte_byte (c : Cc) : Cc.ofByte c.byte = c := by
  rcases c with ⟨_ | _, _ | _, _ | _, _ | _, _ | _⟩ <;> rfl

theorem Cc.byte_and (c : Cc) : c.byte &&& 0x2f = c.byte := by
  rcases c with ⟨_ | _, _ | _, _ | _, _ | _, _ | _⟩ <;> rfl

theorem Cc.byte_ofByte (b : ℕ) : (Cc.ofByte b).byte = b &&& 0x2f := by
  have hbit (k : ℕ) : (if b &&& 2 ^ k ≠ 0 then 2 ^ k else 0) = b &&& 2 ^ k := by
    rw [Nat.and_two_pow]
    cases b.testBit k <;> simp
  have hmask : 0x2f = H_FLAG ||| N_FLAG ||| Z_FLAG ||| V_FLAG ||| C_FLAG := rfl
  have hH : (if b &&& H_FLAG ≠ 0 then H_FLAG else 0) = b &&& H_FLAG := hbit 5
  have hN : (if b &&& N_FLAG ≠ 0 then N_FLAG else 0) = b &&& N_FLAG := hbit 3
  have hZ : (if b &&& Z_FLAG ≠ 0 then Z_FLAG else 0) = b &&& Z_FLAG := hbit 2
  have hV : (if b &&& V_FLAG ≠ 0 then V_FLAG else 0) = b &&& V_FLAG := hbit 1
  have hC : (if b &&& C_FLAG ≠ 0 then C_FLAG else 0) = b &&& C_FLAG := hbit 0
  simp only [byte, ofByte, decide_eq_true_eq]
  rw [hH, hN, hZ, hV, hC, hmask]
  simp only [Nat.and_or_distrib_left]

/-- The bits of CC that `EFI` holds and those that the flag words hold are apart. -/
theorem getCc_eq (s : Cpu β) :
    getCc s = (s.EFI &&& (E_FLAG ||| F_FLAG ||| I_FLAG)) ||| s.flags.cc.byte := by
  simp only [getCc, Cc.byte, Flags.cc, decide_eq_true_eq, Nat.or_assoc]

theorem getCc_and (s : Cpu β) : getCc s &&& 0x2f = s.flags.cc.byte := by
  have hefi : (E_FLAG ||| F_FLAG ||| I_FLAG) &&& 0x2f = 0 := rfl
  rw [getCc_eq, Nat.and_or_distrib_right, Nat.and_assoc, hefi, Nat.and_zero, Nat.zero_or,
    Cc.byte_and]

theorem cc_eq_of_getCc {s t : Cpu β} (h : getCc s = getCc t) : s.flags.cc = t.flags.cc := by
  rw [← Cc.ofByte_byte s.flags.cc, ← getCc_and, h, getCc_and, Cc.ofByte_byte]

theorem getCc_congr {s t : Cpu β} (hefi : s.EFI = t.EFI) (hcc : s.flags.cc = t.flags.cc) :
    getCc s = getCc t := by
  rw [getCc_eq, getCc_eq, hefi, hcc]

/-! ## Operations on the words -/

/-- The result and the condition codes depend on the condition codes only. -/
class Lazy {α : Type} (op : Flags → α × Flags) : Prop where
  congr : ∀ f g : Flags, f.cc = g.cc → (op f).1 = (op g).1 ∧ (op f).2.cc = (op g).2.cc

theorem cc_eq_iff {f g : Flags} : f.cc = g.cc ↔
    (f.H &&& 0x10 = 0 ↔ g.H &&& 0x10 = 0) ∧ (f.N &&& 0x80 = 0 ↔ g.N &&& 0x80 = 0) ∧
      (f.Z = 0 ↔ g.Z = 0) ∧ (f.OV &&& 0x80 = 0 ↔ g.OV &&& 0x80 = 0) ∧ (f.C = 0 ↔ g.C = 0) := by
  have hnot (p q : Prop) [Decidable p] [Decidable q] : decide (¬p) = decide (¬q) ↔ (p ↔ q) := by
    rw [decide_eq_decide, not_iff_not]
  simp only [Flags.cc, Cc.mk.injEq, ne_eq, hnot, decide_eq_decide]

theorem carry_congr {f g : Flags} (h : f.cc = g.cc) : f.carry = g.carry := by
  have hC := (cc_eq_iff.mp h).2.2.2.2
  simp only [Flags.carry, ne_eq, hC]

instance alu_lazy (op : Alu8) (arg val : ℕ) : Lazy (op.eval · arg val) where
  congr f g h := by
    have hcarry := carry_congr h
    rw [cc_eq_iff] at h ⊢
    cases op <;> simp_all [Alu8.eval, sub, cmp, sbc, Exec09.and, bit, ld, eor, adc, Exec09.or, add]

instance unary_lazy (op : Unary) (arg : ℕ) : Lazy (op.eval · arg) where
  congr f g h := by
    have hcarry := carry_congr h
    rw [cc_eq_iff] at h ⊢
    cases op <;> simp_all [Unary.eval, neg, com, lsr, ror, asr, asl, rol, dec, inc, clr]

instance addd_lazy (arg val : ℕ) : Lazy (addd · arg val) where
  congr f g h := by
    rw [cc_eq_iff] at h ⊢
    simp_all [addd]

instance subd_lazy (arg val : ℕ) : Lazy (subd · arg val) where
  congr f g h := by
    rw [cc_eq_iff] at h ⊢
    simp_all [subd]

instance ld16_lazy (arg : ℕ) : Lazy (ld16 · arg) where
  congr f g h := by
    rw [cc_eq_iff] at h ⊢
    simp_all [ld16]

instance mul_lazy (A B : ℕ) : Lazy (mul · A B) where
  congr f g h := by
    rw [cc_eq_iff] at h ⊢
    simp_all [mul]

instance sex_lazy (B : ℕ) : Lazy (sex · B) where
  congr f g h := by
    rw [cc_eq_iff] at h ⊢
    simp_all [sex]

/-- `daa` keeps a set carry by or-ing words, which is still a test for zero. -/
instance daa_lazy (A : ℕ) : Lazy (daa · A) where
  congr f g h := by
    rw [cc_eq_iff] at h ⊢
    simp_all [daa, Nat.or_eq_zero_iff]

/-! The operations without a result. -/

theorem lazy_unit {op : Flags → Flags} (h : ∀ f g : Flags, f.cc = g.cc → (op f).cc = (op g).cc) :
    Lazy fun f => ((), op f) :=
  ⟨fun f g hfg => ⟨rfl, h f g hfg⟩⟩

instance tst_lazy (arg : ℕ) : Lazy fun f => ((), tst f arg) := lazy_unit fun f g h => by
  rw [cc_eq_iff] at h ⊢
  simp_all [tst]

instance stFlags_lazy (arg : ℕ) : Lazy fun f => ((), stFlags f arg) := lazy_unit fun f g h => by
  rw [cc_eq_iff] at h ⊢
  simp_all [stFlags]

instance st16Flags_lazy (arg : ℕ) : Lazy fun f => ((), st16Flags f arg) := lazy_unit fun f g h => by
  rw [cc_eq_iff] at h ⊢
  simp_all [st16Flags]

instance cmp16_lazy (arg val : ℕ) : Lazy fun f => ((), cmp16 f arg val) := lazy_unit fun f g h => by
  rw [cc_eq_iff] at h ⊢
  simp_all [cmp16]

instance setNZ_lazy (N Z : ℕ) : Lazy fun f => ((), { f with N := N, Z := Z, OV := 0 }) :=
  lazy_unit fun f g h => by
    rw [cc_eq_iff] at h ⊢
    simp_all

instance setZ_lazy (Z : ℕ) : Lazy fun f => ((), { f with Z := Z }) := lazy_unit fun f g h => by
  rw [cc_eq_iff] at h ⊢
  simp_all

theorem Cond.holds_congr (c : Cond) {f g : Flags} (h : f.cc = g.cc) : c.holds f = c.holds g := by
  have hx (a b : ℕ) : (a ^^^ b) &&& 0x80 = 0 ↔ (a &&& 0x80 = 0 ↔ b &&& 0x80 = 0) := by
    have hbit (n : ℕ) : n &&& 0x80 = 0 ↔ n.testBit 7 = false := Word.and_two_pow_eq_zero n 7
    rw [hbit, hbit, hbit, Nat.testBit_xor]
    cases a.testBit 7 <;> cases b.testBit 7 <;> decide
  obtain ⟨-, hN, hZ, hV, hC⟩ := cc_eq_iff.mp h
  cases c <;> simp only [Cond.holds, ne_eq, hx, hN, hZ, hV, hC]

end Exec09
