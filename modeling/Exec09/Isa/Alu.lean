import Exec09.Isa.Mpu
import Exec09.Cpu.Decimal
import Exec09.Cpu.WordArithmetic

/-! # Arithmetic of the programming model

The operations on bytes and words with the condition codes that they set: carry
and overflow are told by the numbers that the operands stand for, without and
with sign.
-/
namespace Exec09.Isa
open Foundation Foundation.Radix
variable {w : ℕ}

def carryIn (w : ℕ) (c : Bool) : BitVec w := BitVec.ofNat w c.toNat

/-- N and Z. -/
def tested (r : BitVec w) (cc : Cc) : Cc := { cc with N := r.msb, Z := r = 0 }

/-- The result of an operation that cannot overflow. -/
def logical (cc : Cc) (r : BitVec w) : BitVec w × Cc := (r, { tested r cc with V := false })

instance (h x : ℤ) : Decidable (Fits h x) := inferInstanceAs (Decidable (_ ∧ _))

/-- `a + b` with a carry. -/
def sum (cc : Cc) (a b : BitVec w) (c : Bool) : BitVec w × Cc :=
  let r := a + b + carryIn w c
  (r, { tested r cc with
    V := ¬Fits (2 ^ (w - 1)) (a.toInt + b.toInt + c.toNat)
    C := 2 ^ w ≤ a.toNat + b.toNat + c.toNat })

/-- The sum of two bytes, with the carry between its digits. -/
def byteSum (cc : Cc) (a b : U8) (c : Bool) : U8 × Cc :=
  let r := sum cc a b c
  (r.1, { r.2 with H := 16 ≤ a.toNat % 16 + b.toNat % 16 + c.toNat })

/-- `a - b` with a borrow. -/
def difference (cc : Cc) (a b : BitVec w) (c : Bool) : BitVec w × Cc :=
  let r := a - b - carryIn w c
  (r, { tested r cc with
    V := ¬Fits (2 ^ (w - 1)) (a.toInt - b.toInt - c.toNat)
    C := a.toNat < b.toNat + c.toNat })

/-- A shift, with the bit that falls out. -/
def shifted (cc : Cc) (r : U8) (out : Bool) : U8 × Cc := (r, { tested r cc with C := out })

/-- A shift to the left overflows where it changes the sign. -/
def shiftedLeft (cc : Cc) (a r : U8) : U8 × Cc :=
  let s := shifted cc r a.msb
  (s.1, { s.2 with V := a.msb != r.msb })

def alu (cc : Cc) (a b : U8) : Alu8 → U8 × Cc
  | .sub => difference cc a b false
  | .cmp => (a, (difference cc a b false).2)
  | .sbc => difference cc a b cc.C
  | .and => logical cc (a &&& b)
  | .bit => (a, (logical cc (a &&& b)).2)
  | .ld => logical cc b
  | .eor => logical cc (a ^^^ b)
  | .adc => byteSum cc a b cc.C
  | .or => logical cc (a ||| b)
  | .add => byteSum cc a b false

def unary (cc : Cc) (a : U8) : Unary → U8 × Cc
  | .neg => difference cc 0 a false
  | .com => ((logical cc (~~~a)).1, { (logical cc (~~~a)).2 with C := true })
  | .lsr => shifted cc (a >>> 1) (a.getLsbD 0)
  | .ror => shifted cc (a >>> 1 ||| carryIn 8 cc.C <<< 7) (a.getLsbD 0)
  | .asr => shifted cc (a.sshiftRight 1) (a.getLsbD 0)
  | .asl => shiftedLeft cc a (a <<< 1)
  | .rol => shiftedLeft cc a (a <<< 1 ||| carryIn 8 cc.C)
  | .dec => (a - 1, { tested (a - 1) cc with V := a = 0x80 })
  | .inc => (a + 1, { tested (a + 1) cc with V := a = 0x7F })
  | .clr => ((logical cc (0 : U8)).1, { (logical cc (0 : U8)).2 with C := false })

/-- The product of `A` and `B`. -/
def product (cc : Cc) (a b : U8) : U16 × Cc :=
  let r := a.setWidth 16 * b.setWidth 16
  (r, { cc with Z := r = 0, C := r.getLsbD 7 })

/-- The sign of `B` in all bits of `A`. -/
def signs (cc : Cc) (b : U8) : U8 × Cc :=
  (if b.msb then 0xFF else 0, { cc with N := b.msb, Z := b = 0 })

/-- What is added to the digits of a sum that are beyond nine, or carried. -/
def lowCorrection (cc : Cc) (a : U8) : ℕ := if 9 < a.toNat % 16 ∨ cc.H then 6 else 0

def highCorrection (cc : Cc) (a : U8) : ℕ :=
  if 9 < a.toNat / 16 ∨ cc.C ∨ (8 < a.toNat / 16 ∧ 9 < a.toNat % 16) then 0x60 else 0

def adjusted (cc : Cc) (a : U8) : U8 × Cc :=
  let r := a.toNat + lowCorrection cc a + highCorrection cc a
  let res := BitVec.ofNat 8 r
  (res, { tested res cc with V := false, C := cc.C ∨ 256 ≤ r })

/-- The byte may be the sum of two pairs of decimal digits: no sum has a digit beyond nine at the
top and one at the bottom, nor a carry and a digit beyond two at the top. -/
def Adjustable (cc : Cc) (a : U8) : Prop := ¬(8 < a.toNat / 16 ∧ 9 < a.toNat % 16 ∧
  (9 < a.toNat / 16 ∨ cc.C))

instance (cc : Cc) (a : U8) : Decidable (Adjustable cc a) := inferInstanceAs (Decidable (¬_))

/-- The branches, by the comparison of two numbers that the codes are left by. -/
def taken (cc : Cc) : Cond → Bool
  | .HI => !(cc.C || cc.Z)
  | .LS => cc.C || cc.Z
  | .HS => !cc.C
  | .LO => cc.C
  | .NE => !cc.Z
  | .EQ => cc.Z
  | .VC => !cc.V
  | .VS => cc.V
  | .PL => !cc.N
  | .MI => cc.N
  | .GE => cc.N == cc.V
  | .LT => cc.N != cc.V
  | .GT => cc.N == cc.V && !cc.Z
  | .LE => cc.N != cc.V || cc.Z

/-! ## The flag words compute these -/

/-- The operation on the words returns what the one on the codes does and leaves its codes. -/
class Computes {α α' : Type} (φ : outParam (α' → α)) (op : Flags → α × Flags)
    (spec : Cc → α' × Cc) : Prop where
  run : ∀ f, (op f).1 = φ (spec f.cc).1 ∧ (op f).2.cc = (spec f.cc).2

theorem carry_toNat (f : Flags) : f.carry = f.cc.C.toNat := by
  by_cases h : f.C = 0 <;> simp [Flags.carry, Flags.cc, h]

theorem carryIn_toNat (hw : 0 < w) (c : Bool) : (carryIn w c).toNat = c.toNat := by
  have hc : c.toNat < 2 ^ w := (Bool.toNat_le c).trans_lt (Nat.one_lt_two_pow hw.ne')
  rw [carryIn, BitVec.toNat_ofNat, Nat.mod_eq_of_lt hc]

theorem sign_msb (x : U8) : x.toNat &&& 0x80 ≠ 0 ↔ x.msb = true := by
  have hx := x.isLt
  rw [and_sign_ne_zero, BitVec.msb_eq_decide, decide_eq_true_eq]
  omega

theorem shift_sign_msb (x : U16) : (x.toNat >>> 8) &&& 0x80 ≠ 0 ↔ x.msb = true := by
  have hx := x.isLt
  rw [shift_sign_ne_zero, BitVec.msb_eq_decide, decide_eq_true_eq]
  omega

theorem toNat_eq_zero (x : BitVec w) : x.toNat = 0 ↔ x = 0 := by
  simp [BitVec.toNat_eq]

theorem signed_toInt (hw : 0 < w) (x : BitVec w) : signed (2 ^ (w - 1)) x.toNat = x.toInt := by
  obtain ⟨k, rfl⟩ := Nat.exists_eq_add_of_lt hw
  have hpow : (2 : ℤ) ^ (0 + k + 1) = 2 * 2 ^ k := by
    rw [zero_add, pow_succ, mul_comm]
  have hcond : ((x.toNat : ℤ) < 2 ^ k) ↔ 2 * x.toNat < 2 ^ (0 + k + 1) := by
    zify
    rw [hpow]
    omega
  rw [signed, BitVec.toInt_eq_toNat_cond, show 0 + k + 1 - 1 = k by omega]
  simp only [hcond, Nat.cast_pow, Nat.cast_ofNat, hpow]

/-- The codes of words, one by one. -/
theorem cc_eq {f : Flags} {c : Cc} (hH : f.H &&& 0x10 ≠ 0 ↔ c.H = true)
    (hN : f.N &&& 0x80 ≠ 0 ↔ c.N = true) (hZ : f.Z = 0 ↔ c.Z = true)
    (hV : f.OV &&& 0x80 ≠ 0 ↔ c.V = true) (hC : f.C ≠ 0 ↔ c.C = true) : f.cc = c := by
  rcases c with ⟨H, N, Z, V, C⟩
  simp only [Flags.cc, Cc.mk.injEq]
  exact ⟨by rw [Bool.eq_iff_iff, decide_eq_true_eq, hH],
    by rw [Bool.eq_iff_iff, decide_eq_true_eq, hN],
    by rw [Bool.eq_iff_iff, decide_eq_true_eq, hZ], by rw [Bool.eq_iff_iff, decide_eq_true_eq, hV],
    by rw [Bool.eq_iff_iff, decide_eq_true_eq, hC]⟩

section Bytes
variable (f : Flags) (a b : U8)

theorem cc_H : f.H &&& 0x10 ≠ 0 ↔ f.cc.H = true := decide_eq_true_iff.symm

theorem cc_V : f.OV &&& 0x80 ≠ 0 ↔ f.cc.V = true := decide_eq_true_iff.symm

theorem cc_C : f.C ≠ 0 ↔ f.cc.C = true := decide_eq_true_iff.symm

/-- The result is in two of the words. -/
theorem tested_cc {f : Flags} {r : U8} {c : Cc} (hN : f.N = r.toNat) (hZ : f.Z = r.toNat)
    (hH : f.H &&& 0x10 ≠ 0 ↔ c.H = true) (hV : f.OV &&& 0x80 ≠ 0 ↔ c.V = true)
    (hC : f.C ≠ 0 ↔ c.C = true) : f.cc = tested r c := by
  refine cc_eq (c := tested r c) hH ?_ ?_ hV hC
  · rw [hN, sign_msb]
    rfl
  · rw [hZ, toNat_eq_zero, tested, decide_eq_true_eq]

theorem tested_wide_cc {f : Flags} {r : U16} {c : Cc} (hN : f.N = r.toNat >>> 8)
    (hZ : f.Z = r.toNat) (hH : f.H &&& 0x10 ≠ 0 ↔ c.H = true)
    (hV : f.OV &&& 0x80 ≠ 0 ↔ c.V = true) (hC : f.C ≠ 0 ↔ c.C = true) : f.cc = tested r c := by
  refine cc_eq (c := tested r c) hH ?_ ?_ hV hC
  · rw [hN, shift_sign_msb]
    rfl
  · rw [hZ, toNat_eq_zero, tested, decide_eq_true_eq]

theorem logical_cc (r : U8) :
    ({ f with N := r.toNat, Z := r.toNat, OV := 0 } : Flags).cc = (logical f.cc r).2 :=
  tested_cc (c := { f.cc with V := false }) rfl rfl (cc_H f) (by simp) (cc_C f)

theorem logical_wide_cc (r : U16) :
    ({ f with N := r.toNat >>> 8, Z := r.toNat, OV := 0 } : Flags).cc = (logical f.cc r).2 :=
  tested_wide_cc (c := { f.cc with V := false }) rfl rfl (cc_H f) (by simp) (cc_C f)

theorem signed_byte (a : U8) : signed 128 a.toNat = a.toInt := signed_toInt (by decide) a

theorem signed_word (a : U16) : signed 32768 a.toNat = a.toInt := signed_toInt (by decide) a

theorem adc_sum : (adc f a.toNat b.toNat).1 = (byteSum f.cc a b f.cc.C).1.toNat ∧
    (adc f a.toNat b.toNat).2.cc = (byteSum f.cc a b f.cc.C).2 := by
  have hfst : (adc f a.toNat b.toNat).1 = (byteSum f.cc a b f.cc.C).1.toNat := by
    rw [adc_fst f a.isLt b.isLt, carry_toNat, byteSum, sum, BitVec.toNat_add, BitVec.toNat_add,
      carryIn_toNat (by decide)]
    omega
  have hcc := tested_cc (c := (byteSum f.cc a b f.cc.C).2) hfst hfst
    (by rw [adc_H f a.isLt b.isLt, carry_toNat, byteSum, decide_eq_true_eq])
    (by
      rw [adc_OV f a.isLt b.isLt, carry_toNat, signed_byte, signed_byte, byteSum, sum,
        decide_eq_true_eq]
      rfl)
    (by
      rw [adc_C f a.isLt b.isLt, carry_toNat, byteSum, sum, decide_eq_true_eq]
      rfl)
  exact ⟨hfst, hcc⟩

theorem sbc_difference : (sbc f a.toNat b.toNat).1 = (difference f.cc a b f.cc.C).1.toNat ∧
    (sbc f a.toNat b.toNat).2.cc = (difference f.cc a b f.cc.C).2 := by
  have hfst : (sbc f a.toNat b.toNat).1 = (difference f.cc a b f.cc.C).1.toNat := by
    have hc := Bool.toNat_le f.cc.C
    have ha := a.isLt
    have hb := b.isLt
    rw [sbc_fst f a.isLt b.isLt, carry_toNat, difference, BitVec.toNat_sub, BitVec.toNat_sub,
      carryIn_toNat (by decide)]
    omega
  have hcc := tested_cc (f := (sbc f a.toNat b.toNat).2) (c := (difference f.cc a b f.cc.C).2)
    hfst hfst (cc_H f)
    (by
      rw [sbc_OV f a.isLt b.isLt, carry_toNat, signed_byte, signed_byte, difference,
        decide_eq_true_eq]
      rfl)
    (by rw [sbc_C f a.isLt b.isLt, carry_toNat, difference, decide_eq_true_eq])
  exact ⟨hfst, hcc⟩

/-- `f` with a clear carry. -/
theorem add_sum : (add f a.toNat b.toNat).1 = (byteSum f.cc a b false).1.toNat ∧
    (add f a.toNat b.toNat).2.cc = (byteSum f.cc a b false).2 := by
  rw [add_eq_adc]
  exact adc_sum { f with C := 0 } a b

theorem sub_difference : (sub f a.toNat b.toNat).1 = (difference f.cc a b false).1.toNat ∧
    (sub f a.toNat b.toNat).2.cc = (difference f.cc a b false).2 := by
  rw [sub_eq_sbc]
  exact sbc_difference { f with C := 0 } a b

instance alu_computes (op : Alu8) :
    Computes BitVec.toNat (op.eval · a.toNat b.toNat) (alu · a b op) where
  run f := by
    cases op with
    | sub => exact sub_difference f a b
    | cmp => exact ⟨rfl, (sub_difference f a b).2⟩
    | sbc => exact sbc_difference f a b
    | and => exact ⟨(BitVec.toNat_and a b).symm, logical_cc f (a &&& b)⟩
    | bit => exact ⟨rfl, logical_cc f (a &&& b)⟩
    | ld => exact ⟨rfl, logical_cc f b⟩
    | eor => exact ⟨(BitVec.toNat_xor a b).symm, logical_cc f (a ^^^ b)⟩
    | adc => exact adc_sum f a b
    | or => exact ⟨(BitVec.toNat_or a b).symm, logical_cc f (a ||| b)⟩
    | add => exact add_sum f a b

end Bytes

/-! The operations on one byte. -/

section Unary
variable (f : Flags) (a : U8)

theorem neg_computes : (neg f a.toNat).1 = (unary f.cc a .neg).1.toNat ∧
    (neg f a.toNat).2.cc = (unary f.cc a .neg).2 := by
  have ha := a.isLt
  have hzero : (0 : U8).toNat = 0 := rfl
  have hres : usub 0 a.toNat &&& 0xff = (0 - a).toNat := by
    rw [Word.and_255, BitVec.toNat_sub, hzero]
    simp only [Word.sub]
    omega
  have hV : ∀ a : U8, ((0 - a).toNat &&& a.toNat) &&& 0x80 ≠ 0 ↔
      ¬Fits 128 ((0 : U8).toInt - a.toInt - (0 : ℕ)) := by decide
  have hC : (0 - a).toNat ≠ 0 ↔ (0 : U8).toNat < a.toNat + (0 : ℕ) := by
    rw [BitVec.toNat_sub, hzero]
    omega
  have hsame : 0 - a - carryIn 8 false = 0 - a := BitVec.sub_zero (0 - a)
  rw [neg, hres, unary, difference, hsame]
  exact ⟨rfl, tested_cc
    (c := { f.cc with V := ¬Fits 128 ((0 : U8).toInt - a.toInt - (0 : ℕ))
                      C := (0 : U8).toNat < a.toNat + (0 : ℕ) }) rfl rfl (cc_H f)
    (by rw [hV, decide_eq_true_eq]) (by rw [hC, decide_eq_true_eq])⟩

theorem com_computes : (com f a.toNat).1 = (unary f.cc a .com).1.toNat ∧
    (com f a.toNat).2.cc = (unary f.cc a .com).2 := by
  have hres : ∀ a : U8, a.toNat ^^^ 0xff = (~~~a).toNat := by decide
  rw [com, hres]
  exact ⟨rfl, tested_cc (c := { f.cc with V := false, C := true }) rfl rfl (cc_H f)
    (by simp) (by simp)⟩

theorem low_bit : ∀ a : U8, a.toNat &&& 1 ≠ 0 ↔ a.getLsbD 0 = true := by decide

theorem lsr_computes : (lsr f a.toNat).1 = (unary f.cc a .lsr).1.toNat ∧
    (lsr f a.toNat).2.cc = (unary f.cc a .lsr).2 := by
  have hres : a.toNat >>> 1 = (a >>> 1).toNat := (BitVec.toNat_ushiftRight ..).symm
  have hsign : ∀ a : U8, (a >>> 1).msb = false := by decide
  rw [lsr, hres]
  refine ⟨rfl, cc_eq (c := shifted f.cc (a >>> 1) (a.getLsbD 0) |>.2) (cc_H f) ?_ ?_ (cc_V f)
    (low_bit a)⟩
  · simp [shifted, tested, hsign]
  · rw [toNat_eq_zero, shifted, tested, decide_eq_true_eq]

theorem ror_computes : (ror f a.toNat).1 = (unary f.cc a .ror).1.toNat ∧
    (ror f a.toNat).2.cc = (unary f.cc a .ror).2 := by
  have hres : ∀ (c : Bool) (a : U8), (if c = true then a.toNat ||| 0x100 else a.toNat) >>> 1 =
      (a >>> 1 ||| carryIn 8 c <<< 7).toNat := by decide
  have hC : ∀ (c : Bool) (a : U8), (if c = true then a.toNat ||| 0x100 else a.toNat) &&& 1 ≠ 0 ↔
      a.getLsbD 0 = true := by decide
  simp only [ror, cc_C f, hres]
  exact ⟨rfl, tested_cc (c := { f.cc with C := a.getLsbD 0 }) rfl rfl (cc_H f) (cc_V f)
    (hC f.cc.C a)⟩

theorem asr_computes : (asr f a.toNat).1 = (unary f.cc a .asr).1.toNat ∧
    (asr f a.toNat).2.cc = (unary f.cc a .asr).2 := by
  have hres : ∀ a : U8, (int8 a.toNat >>> 1) &&& 0xff = (a.sshiftRight 1).toNat := by decide
  have hC : ∀ a : U8, int8 a.toNat &&& 1 ≠ 0 ↔ a.getLsbD 0 = true := by decide
  rw [asr, hres]
  exact ⟨rfl, tested_cc (c := { f.cc with C := a.getLsbD 0 }) rfl rfl (cc_H f) (cc_V f) (hC a)⟩

/-- A shift to the left, from its word. -/
theorem left_computes {word : ℕ} {r : U8} (hres : word &&& 0xff = r.toNat)
    (hC : word &&& 0x100 ≠ 0 ↔ a.msb = true) :
    ({ f with N := word &&& 0xff, Z := word &&& 0xff, OV := a.toNat ^^^ (word &&& 0xff),
              C := word &&& 0x100 } : Flags).cc = (shiftedLeft f.cc a r).2 := by
  rw [hres]
  refine tested_cc (c := { f.cc with V := a.msb != r.msb, C := a.msb }) rfl rfl (cc_H f) ?_ hC
  rw [sign_xor, sign_msb, sign_msb]
  cases a.msb <;> cases r.msb <;> simp

theorem asl_computes : (asl f a.toNat).1 = (unary f.cc a .asl).1.toNat ∧
    (asl f a.toNat).2.cc = (unary f.cc a .asl).2 := by
  have hres : ∀ a : U8, uint (a.toNat <<< 1) &&& 0xff = (a <<< 1).toNat := by decide
  have hC : ∀ a : U8, uint (a.toNat <<< 1) &&& 0x100 ≠ 0 ↔ a.msb = true := by decide
  exact ⟨hres a, left_computes f a (hres a) (hC a)⟩

theorem rol_computes : (rol f a.toNat).1 = (unary f.cc a .rol).1.toNat ∧
    (rol f a.toNat).2.cc = (unary f.cc a .rol).2 := by
  have hres : ∀ (c : Bool) (a : U8), uint ((a.toNat <<< 1) + c.toNat) &&& 0xff =
      (a <<< 1 ||| carryIn 8 c).toNat := by decide
  have hC : ∀ (c : Bool) (a : U8), uint ((a.toNat <<< 1) + c.toNat) &&& 0x100 ≠ 0 ↔
      a.msb = true := by decide
  rw [rol, carry_toNat]
  exact ⟨hres f.cc.C a, left_computes f a (hres f.cc.C a) (hC f.cc.C a)⟩

theorem inc_computes : (inc f a.toNat).1 = (unary f.cc a .inc).1.toNat ∧
    (inc f a.toNat).2.cc = (unary f.cc a .inc).2 := by
  have hres : uint (a.toNat + 1) &&& 0xff = (a + 1).toNat := by
    rw [uint_of_lt (by omega), Word.and_255, BitVec.toNat_add]
    rfl
  have hV : ∀ a : U8, (unot a.toNat &&& (a + 1).toNat) &&& 0x80 ≠ 0 ↔ a = 0x7F := by decide
  rw [inc, hres]
  exact ⟨rfl, tested_cc (c := { f.cc with V := a = 0x7F }) rfl rfl (cc_H f)
    (by rw [hV, decide_eq_true_eq]) (cc_C f)⟩

theorem dec_computes : (dec f a.toNat).1 = (unary f.cc a .dec).1.toNat ∧
    (dec f a.toNat).2.cc = (unary f.cc a .dec).2 := by
  have hres : usub a.toNat 1 &&& 0xff = (a - 1).toNat := by
    have ha := a.isLt
    have hone : (1 : U8).toNat = 1 := rfl
    rw [Word.and_255, BitVec.toNat_sub, hone]
    simp only [Word.sub]
    omega
  have hV : ∀ a : U8, (a.toNat &&& unot (a - 1).toNat) &&& 0x80 ≠ 0 ↔ a = 0x80 := by decide
  rw [dec, hres]
  exact ⟨rfl, tested_cc (c := { f.cc with V := a = 0x80 }) rfl rfl (cc_H f)
    (by rw [hV, decide_eq_true_eq]) (cc_C f)⟩

theorem clr_computes : (clr f a.toNat).1 = (unary f.cc a .clr).1.toNat ∧
    (clr f a.toNat).2.cc = (unary f.cc a .clr).2 :=
  ⟨rfl, tested_cc (r := 0) (c := { f.cc with V := false, C := false }) rfl rfl (cc_H f)
    (by simp [clr]) (by simp [clr])⟩

instance unary_computes (op : Unary) :
    Computes BitVec.toNat (op.eval · a.toNat) (unary · a op) where
  run f := by
    cases op with
    | neg => exact neg_computes f a
    | com => exact com_computes f a
    | lsr => exact lsr_computes f a
    | ror => exact ror_computes f a
    | asr => exact asr_computes f a
    | asl => exact asl_computes f a
    | rol => exact rol_computes f a
    | dec => exact dec_computes f a
    | inc => exact inc_computes f a
    | clr => exact clr_computes f a

end Unary

/-! The operations on words. -/

section Words
variable (f : Flags) (a b : U16)

theorem addd_sum : (addd f a.toNat b.toNat).1 = (sum f.cc a b false).1.toNat ∧
    (addd f a.toNat b.toNat).2.cc = (sum f.cc a b false).2 := by
  have hfst : (addd f a.toNat b.toNat).1 = (sum f.cc a b false).1.toNat := by
    rw [addd_fst f a.isLt b.isLt, sum, BitVec.toNat_add, BitVec.toNat_add,
      carryIn_toNat (by decide), Bool.toNat_false, Nat.add_zero, Nat.mod_mod]
  have hN : (addd f a.toNat b.toNat).2.N = (sum f.cc a b false).1.toNat >>> 8 := by
    rw [← hfst]
    rfl
  have hcc := tested_wide_cc (f := (addd f a.toNat b.toNat).2) (c := (sum f.cc a b false).2)
    hN hfst (cc_H f)
    (by
      rw [addd_OV f a.isLt b.isLt, signed_word, signed_word, sum, decide_eq_true_eq,
        Bool.toNat_false, Nat.cast_zero, add_zero]
      rfl)
    (by
      rw [addd_C f a.isLt b.isLt, sum, decide_eq_true_eq]
      rfl)
  exact ⟨hfst, hcc⟩

theorem subd_difference : (subd f a.toNat b.toNat).1 = (difference f.cc a b false).1.toNat ∧
    (subd f a.toNat b.toNat).2.cc = (difference f.cc a b false).2 := by
  have hfst : (subd f a.toNat b.toNat).1 = (difference f.cc a b false).1.toNat := by
    have ha := a.isLt
    have hb := b.isLt
    rw [subd_fst f a.isLt b.isLt, difference, BitVec.toNat_sub, BitVec.toNat_sub,
      carryIn_toNat (by decide), Bool.toNat_false]
    omega
  have hN : (subd f a.toNat b.toNat).2.N = (difference f.cc a b false).1.toNat >>> 8 := by
    rw [← hfst]
    rfl
  have hcc := tested_wide_cc (f := (subd f a.toNat b.toNat).2)
    (c := (difference f.cc a b false).2) hN hfst (cc_H f)
    (by
      rw [subd_OV f a.isLt b.isLt, signed_word, signed_word, difference, decide_eq_true_eq,
        Bool.toNat_false, Nat.cast_zero, sub_zero]
      rfl)
    (by
      rw [subd_C f a.isLt b.isLt, difference, decide_eq_true_eq]
      rfl)
  exact ⟨hfst, hcc⟩

instance addd_computes : Computes BitVec.toNat (addd · a.toNat b.toNat) (sum · a b false) :=
  ⟨fun f => addd_sum f a b⟩

instance subd_computes :
    Computes BitVec.toNat (subd · a.toNat b.toNat) (difference · a b false) :=
  ⟨fun f => subd_difference f a b⟩

instance ld16_computes : Computes BitVec.toNat (ld16 · b.toNat) (logical · b) :=
  ⟨fun f => ⟨rfl, logical_wide_cc f b⟩⟩

end Words

section Accumulators
variable (f : Flags) (a b : U8)

theorem product_toNat : (product f.cc a b).1.toNat = uint (a.toNat * b.toNat) &&& 0xffff := by
  have hlt : a.toNat * b.toNat < 256 * 256 := Nat.mul_lt_mul'' a.isLt b.isLt
  have hwide (x : U8) : x.toNat % 2 ^ 16 = x.toNat :=
    Nat.mod_eq_of_lt (x.isLt.trans (by decide))
  rw [product, uint_of_lt (by omega), Word.and_65535, BitVec.toNat_mul, BitVec.toNat_setWidth,
    BitVec.toNat_setWidth, hwide, hwide]

instance mul_computes : Computes BitVec.toNat (mul · a.toNat b.toNat) (product · a b) where
  run f := by
    have hbit (x : U16) : x.toNat &&& 0x80 ≠ 0 ↔ x.getLsbD 7 = true :=
      Word.and_two_pow_ne_zero x.toNat 7
    rw [mul, ← product_toNat f]
    refine ⟨rfl, cc_eq (c := (product f.cc a b).2) (cc_H f) ?_ ?_ (cc_V f) (hbit _)⟩
    · exact decide_eq_true_iff.symm
    · rw [toNat_eq_zero, product, decide_eq_true_eq]

instance sex_computes : Computes BitVec.toNat (sex · b.toNat) (signs · b) where
  run f := by
    have hfst : ∀ b : U8, (if b.toNat &&& 0x80 ≠ 0 then 0xff else b.toNat &&& 0x80) =
        (if b.msb then 0xFF else 0 : U8).toNat := by decide
    have hN : ∀ b : U8, (b.toNat &&& 0x80) &&& 0x80 ≠ 0 ↔ b.msb = true := by decide
    refine ⟨hfst b, cc_eq (c := (signs f.cc b).2) (cc_H f) (hN b) ?_ (cc_V f) (cc_C f)⟩
    rw [signs, decide_eq_true_eq]
    exact toNat_eq_zero b

/-- The two corrections of the upper digit are one, unless both are made. -/
theorem corrections_eq {A : ℕ} {H C : Prop} [Decidable H] [Decidable C]
    (h : ¬(8 < A / 16 ∧ 9 < A % 16 ∧ (9 < A / 16 ∨ C))) :
    A + (if A % 16 > 0x09 ∨ H then 0x06 else 0) +
        (if 16 * (A / 16) > 0x80 ∧ A % 16 > 0x09 then 0x60 else 0) +
        (if 16 * (A / 16) > 0x90 ∨ C then 0x60 else 0) =
      A + (if 9 < A % 16 ∨ H then 6 else 0) +
        if 9 < A / 16 ∨ C ∨ (8 < A / 16 ∧ 9 < A % 16) then 0x60 else 0 := by
  by_cases hC : C
  · simp only [hC, or_true, true_or, and_true] at h ⊢
    split_ifs <;> omega
  · simp only [hC, or_false, false_or] at h ⊢
    split_ifs <;> omega

theorem corrected_eq (h : Adjustable f.cc a) :
    corrected f a.toNat = a.toNat + lowCorrection f.cc a + highCorrection f.cc a := by
  simp only [corrected, lowCorrection, highCorrection, cc_H, cc_C]
  exact corrections_eq h

theorem daa_adjusted (h : Adjustable f.cc a) :
    (daa f a.toNat).1 = (adjusted f.cc a).1.toNat ∧ (daa f a.toNat).2.cc = (adjusted f.cc a).2 := by
  obtain ⟨hfst, hC⟩ := daa_eq f a.isLt
  rw [corrected_eq f a h] at hfst hC
  have hres : (daa f a.toNat).1 = (adjusted f.cc a).1.toNat := hfst
  refine ⟨hres, tested_cc (f := (daa f a.toNat).2) (c := (adjusted f.cc a).2) hres hres (cc_H f)
    ?_ ?_⟩
  · exact (by simp : (0 : ℕ) &&& 0x80 ≠ 0 ↔ false = true)
  · have hlow : lowCorrection f.cc a ≤ 6 := by
      rw [lowCorrection]
      split <;> decide
    have hhigh : highCorrection f.cc a ≤ 0x60 := by
      rw [highCorrection]
      split <;> decide
    have ha := a.isLt
    rw [hC, adjusted, decide_eq_true_eq, cc_C, Nat.mod_eq_of_lt (by omega)]

end Accumulators

theorem holds_taken (f : Flags) (c : Cond) : c.holds f = taken f.cc c := by
  have hZ : f.Z = 0 ↔ f.cc.Z = true := decide_eq_true_iff.symm
  have hN : f.N &&& 0x80 ≠ 0 ↔ f.cc.N = true := decide_eq_true_iff.symm
  have hlt : (f.N ^^^ f.OV) &&& 0x80 ≠ 0 ↔ f.cc.N ≠ f.cc.V := by
    rw [sign_xor, hN, cc_V, Ne, ← Bool.eq_iff_iff]
  have hC := not_iff_comm.mp (cc_C f)
  have hV := not_iff_comm.mp (cc_V f)
  have hpl := not_iff_comm.mp hN
  have hge := not_iff_comm.mp hlt
  cases c
  all_goals
    simp only [Cond.holds, taken, hZ, hN, hlt, ← hC, ← hV, ← hpl, ← hge, ne_eq]
    cases f.cc.Z <;> cases f.cc.C <;> cases f.cc.N <;> cases f.cc.V <;> rfl

end Exec09.Isa
