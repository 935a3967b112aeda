import Exec09.Cpu.ConditionCodes
import Exec09.Foundation.Radix

/-! # Multi-precision arithmetic

A chain applies one byte operation to the bytes of a number, least significant
byte first. The carry is held as 0x80 by `adc` and as 0x100 by `sbc` and `rol`, but
is tested for zero only.
-/
namespace Exec09
open Foundation Foundation.Radix
variable {β : Type}

/-- The bit of a byte that holds its sign. -/
theorem and_sign_ne_zero (x : ℕ) : x &&& 0x80 ≠ 0 ↔ 128 ≤ x % 256 :=
  Word.and_two_pow_ne_zero_iff x 7

theorem and_carry_ne_zero (x : ℕ) : x &&& 0x100 ≠ 0 ↔ 256 ≤ x % 512 :=
  Word.and_two_pow_ne_zero_iff x 8

theorem uint_of_lt {x : ℕ} (h : x < 2 ^ 32) : uint x = x := Nat.mod_eq_of_lt h

theorem Flags.carry_le (f : Flags) : f.carry ≤ 1 := by
  unfold Flags.carry
  split <;> simp

theorem Flags.carry_of_iff {f : Flags} {p : Prop} [Decidable p] (h : f.C ≠ 0 ↔ p) :
    f.carry = if p then 1 else 0 := by
  simp only [Flags.carry, h]

/-! ## One byte -/

theorem sign_xor (x y : ℕ) : (x ^^^ y) &&& 0x80 ≠ 0 ↔ ¬(x &&& 0x80 ≠ 0 ↔ y &&& 0x80 ≠ 0) :=
  Word.xor_and_two_pow_ne_zero x y 7

theorem sign_and (x y : ℕ) : (x &&& y) &&& 0x80 ≠ 0 ↔ x &&& 0x80 ≠ 0 ∧ y &&& 0x80 ≠ 0 :=
  Word.and_and_two_pow_ne_zero x y 7

section Adc
variable (f : Flags) {a v : ℕ} (ha : a < 256) (hv : v < 256)
include ha hv

theorem adc_fst : (adc f a v).1 = (a + v + f.carry) % 256 := by
  have hf := f.carry_le
  have hsum : a + v + f.carry < 2 ^ 32 := by omega
  simp only [adc, uint_of_lt hsum, Word.and_255]

theorem adc_C : (adc f a v).2.C ≠ 0 ↔ 256 ≤ a + v + f.carry := by
  have hf := f.carry_le
  have hsum : a + v + f.carry < 2 ^ 32 := by omega
  have hshift : (a + v + f.carry) >>> 1 = (a + v + f.carry) / 2 := Nat.shiftRight_succ ..
  simp only [adc, uint_of_lt hsum, hshift, and_sign_ne_zero]
  omega

theorem adc_value : (adc f a v).1 + 256 * (adc f a v).2.carry = a + v + f.carry := by
  have hf := f.carry_le
  rw [adc_fst f ha hv, Flags.carry_of_iff (adc_C f ha hv)]
  split <;> omega

/-- `arg ^ val ^ res` is the carry into bit 7, and `C` holds the carry out of it. -/
theorem adc_OV : (adc f a v).2.OV &&& 0x80 ≠ 0 ↔
    ¬Fits 128 (signed 128 a + signed 128 v + f.carry) := by
  have hf := f.carry_le
  have hr := adc_fst f ha hv
  have hC := adc_C f ha hv
  have hC8 : (adc f a v).2.C &&& 0x80 = (adc f a v).2.C := by
    simp only [adc, Nat.and_assoc, Nat.and_self]
  have hOV : (adc f a v).2.OV = a ^^^ v ^^^ (adc f a v).1 ^^^ (adc f a v).2.C := rfl
  rw [hOV, sign_xor, sign_xor, sign_xor, hC8, hC, hr, and_sign_ne_zero, and_sign_ne_zero,
    and_sign_ne_zero, Fits, signed, signed]
  split <;> split <;> omega

end Adc

section Sbc
variable (f : Flags) {a v : ℕ} (ha : a < 256) (hv : v < 256)
include ha hv

theorem sbc_difference : usub (usub a v) f.carry =
    if v + f.carry ≤ a then a - (v + f.carry) else 2 ^ 32 + a - (v + f.carry) := by
  have hf := f.carry_le
  simp only [Word.sub]
  split <;> omega

theorem sbc_fst : (sbc f a v).1 = (256 + a - (v + f.carry)) % 256 := by
  have hf := f.carry_le
  simp only [sbc, sbc_difference f ha hv, Word.and_255]
  split <;> omega

theorem sbc_C : (sbc f a v).2.C ≠ 0 ↔ a < v + f.carry := by
  have hf := f.carry_le
  simp only [sbc, sbc_difference f ha hv, and_carry_ne_zero]
  split <;> omega

theorem sbc_value : ((sbc f a v).1 : ℤ) + 256 * -((sbc f a v).2.carry : ℤ) = a - v - f.carry := by
  have hf := f.carry_le
  rw [sbc_fst f ha hv, Flags.carry_of_iff (sbc_C f ha hv)]
  split <;> omega

theorem sbc_OV : (sbc f a v).2.OV &&& 0x80 ≠ 0 ↔
    ¬Fits 128 (signed 128 a - signed 128 v - f.carry) := by
  have hf := f.carry_le
  have hr := sbc_fst f ha hv
  have hOV : (sbc f a v).2.OV = (a ^^^ v) &&& (a ^^^ (sbc f a v).1) := rfl
  rw [hOV, sign_and, sign_xor, sign_xor, hr, and_sign_ne_zero, and_sign_ne_zero,
    and_sign_ne_zero, Fits, signed, signed]
  split <;> split <;> omega

end Sbc

section Rol
variable (f : Flags) {a : ℕ} (ha : a < 256)
include ha

theorem rol_fst : (rol f a).1 = (2 * a + f.carry) % 256 := by
  have hf := f.carry_le
  have hsum : a * 2 + f.carry < 2 ^ 32 := by omega
  simp only [rol, Nat.shiftLeft_eq, pow_one, uint_of_lt hsum, Word.and_255, mul_comm 2]

theorem rol_C : (rol f a).2.C ≠ 0 ↔ 256 ≤ 2 * a + f.carry := by
  have hf := f.carry_le
  have hsum : a * 2 + f.carry < 2 ^ 32 := by omega
  simp only [rol, Nat.shiftLeft_eq, pow_one, uint_of_lt hsum, and_carry_ne_zero]
  omega

theorem rol_value : (rol f a).1 + 256 * (rol f a).2.carry = 2 * a + f.carry := by
  have hf := f.carry_le
  rw [rol_fst f ha, Flags.carry_of_iff (rol_C f ha)]
  split <;> omega

end Rol

/-! ## Chains of bytes -/

/-- The operations that may run between two bytes, with the operands that the functions of
the source are given. LEA has no function of its own. -/
inductive Between
  | ld (arg : ℕ) | st (arg : ℕ) | inc (arg : ℕ) | dec (arg : ℕ) | tst (arg : ℕ)
  | and (arg val : ℕ) | or (arg val : ℕ) | eor (arg val : ℕ) | bit (arg val : ℕ)
  | ld16 (arg : ℕ) | st16 (arg : ℕ) | lea (r : IndexReg) (ea : ℕ)
  deriving DecidableEq, Repr

def Between.flags (f : Flags) : Between → Flags
  | .ld arg => (Exec09.ld f arg).2
  | .st arg => stFlags f arg
  | .inc arg => (Exec09.inc f arg).2
  | .dec arg => (Exec09.dec f arg).2
  | .tst arg => Exec09.tst f arg
  | .and arg val => (Exec09.and f arg val).2
  | .or arg val => (Exec09.or f arg val).2
  | .eor arg val => (Exec09.eor f arg val).2
  | .bit arg val => Exec09.bit f arg val
  | .ld16 arg => (Exec09.ld16 f arg).2
  | .st16 arg => st16Flags f arg
  | .lea r ea => if r = .X ∨ r = .Y then { f with Z := ea } else f

theorem Flags.set_C (f : Flags) (n z v : ℕ) :
    ({ f with N := n, Z := z, OV := v } : Flags).C = f.C := rfl

theorem Between.flags_C (f : Flags) (o : Between) : (o.flags f).C = f.C := by
  cases o with
  | lea r ea => cases r <;> simp [flags]
  | _ => exact f.set_C _ _ _

/-- One byte of each operand, with the operations that run before the byte is processed. -/
structure ByteStep where
  before : List Between
  fst : ℕ
  snd : ℕ
  deriving DecidableEq, Repr

def ByteStep.flags (x : ByteStep) (f : Flags) : Flags := x.before.foldl Between.flags f

theorem foldl_flags_C (l : List Between) (f : Flags) : (l.foldl Between.flags f).C = f.C := by
  induction l generalizing f with
  | nil => rfl
  | cons o l ih => rw [List.foldl_cons, ih, o.flags_C]

theorem ByteStep.flags_carry (x : ByteStep) (f : Flags) : (x.flags f).carry = f.carry := by
  simp only [Flags.carry, ByteStep.flags, foldl_flags_C]

/-- The result bytes and the final flags of `op` folded over the bytes. -/
def chain (op : Flags → ℕ → ℕ → ℕ × Flags) : List ByteStep → Flags → List ℕ × Flags
  | [], f => ([], f)
  | x :: steps, f =>
    let r := op (x.flags f) x.fst x.snd
    let rest := chain op steps r.2
    (r.1 :: rest.1, rest.2)

theorem chain_append (op : Flags → ℕ → ℕ → ℕ × Flags) (steps : List ByteStep) (x : ByteStep)
    (f : Flags) : chain op (steps ++ [x]) f =
      ((chain op steps f).1 ++ [(op (x.flags (chain op steps f).2) x.fst x.snd).1],
        (op (x.flags (chain op steps f).2) x.fst x.snd).2) := by
  induction steps generalizing f with
  | nil => rfl
  | cons y steps ih => simp only [List.cons_append, chain, ih]

/-- `op` processes one byte: the digit and the carry out are those of `total` with the
carry in, where a carry counts `sign`. -/
structure ByteOp (op : Flags → ℕ → ℕ → ℕ × Flags) (sign : ℤ) (total : ℤ → ℤ → ℤ) : Prop where
  lt : ∀ {f : Flags} {a v : ℕ}, a < 256 → v < 256 → (op f a v).1 < 256
  value : ∀ {f : Flags} {a v : ℕ}, a < 256 → v < 256 →
    ((op f a v).1 : ℤ) + 256 * (sign * (op f a v).2.carry) = total a v + sign * f.carry

theorem adc_byteOp : ByteOp adc 1 (· + ·) where
  lt ha hv := by
    rw [adc_fst _ ha hv]
    omega
  value {f a v} ha hv := by
    have h : ((adc f a v).1 : ℤ) + 256 * (adc f a v).2.carry = a + v + f.carry := by
      exact_mod_cast adc_value f ha hv
    linarith

theorem sbc_byteOp : ByteOp sbc (-1) (· - ·) where
  lt ha hv := by
    rw [sbc_fst _ ha hv]
    omega
  value {f a v} ha hv := by
    have h := sbc_value f ha hv
    linarith

theorem rol_byteOp : ByteOp (fun f arg _ => rol f arg) 1 (fun a _ => a + a) where
  lt ha _ := by
    rw [rol_fst _ ha]
    omega
  value {f a v} ha _ := by
    have h : ((rol f a).1 : ℤ) + 256 * (rol f a).2.carry = 2 * a + f.carry := by
      exact_mod_cast rol_value f ha
    linarith

section Chain
variable {op : Flags → ℕ → ℕ → ℕ × Flags} {sign : ℤ} {total : ℤ → ℤ → ℤ}

/-- The columns of a chain, reduced by the byte operation, are a carry chain. -/
theorem ByteOp.carryChain (hop : ByteOp op sign total) {steps : List ByteStep}
    (hbytes : ∀ x ∈ steps, x.fst < 256 ∧ x.snd < 256) (f : Flags) :
    CarryChain 256 (sign * f.carry) (steps.map fun x => total x.fst x.snd)
      ((chain op steps f).1.map (↑)) (sign * (chain op steps f).2.carry) := by
  induction steps generalizing f with
  | nil => exact .nil _
  | cons x steps ih =>
    rw [List.forall_mem_cons] at hbytes
    have hvalue := hop.value (f := x.flags f) hbytes.1.1 hbytes.1.2
    have hlt := hop.lt (f := x.flags f) hbytes.1.1 hbytes.1.2
    rw [x.flags_carry] at hvalue
    exact .cons ⟨Int.natCast_nonneg _, by exact_mod_cast hlt⟩ hvalue (ih hbytes.2 _)

theorem ByteOp.chain_length (hop : ByteOp op sign total) {steps : List ByteStep}
    (hbytes : ∀ x ∈ steps, x.fst < 256 ∧ x.snd < 256) (f : Flags) :
    (chain op steps f).1.length = steps.length := by
  simpa using (hop.carryChain hbytes f).length_eq

theorem ByteOp.chain_lt (hop : ByteOp op sign total) {steps : List ByteStep}
    (hbytes : ∀ x ∈ steps, x.fst < 256 ∧ x.snd < 256) (f : Flags) :
    ∀ r ∈ (chain op steps f).1, r < 256 := by
  intro r hr
  have h := (hop.carryChain hbytes f).digits r (List.mem_map_of_mem hr)
  omega

/-- The result bytes with the carry out as a further digit are the columns with the carry in. -/
theorem ByteOp.chain_value (hop : ByteOp op sign total) {steps : List ByteStep}
    (hbytes : ∀ x ∈ steps, x.fst < 256 ∧ x.snd < 256) (f : Flags) :
    ((Nat.ofDigits 256 (chain op steps f).1 : ℕ) : ℤ) +
        256 ^ steps.length * (sign * (chain op steps f).2.carry) =
      weigh 256 (steps.map fun x => total x.fst x.snd) 0 + sign * f.carry := by
  have h := (hop.carryChain hbytes f).value_eq
  have hvalue := weigh_ofDigits 256 (chain op steps f).1 id
  rw [List.length_map, hop.chain_length hbytes f] at h
  rw [List.map_id] at hvalue
  rw [← h, ← hvalue]
  rfl

/-- The signed total of all columns fits exactly if the top column does with its carry. -/
theorem ByteOp.fits_top (hop : ByteOp op sign total) {steps : List ByteStep}
    (hbytes : ∀ x ∈ steps, x.fst < 256 ∧ x.snd < 256) (f : Flags) (z : ℤ) :
    Fits (256 ^ steps.length * 128)
        (weigh 256 (steps.map fun x => total x.fst x.snd) z + sign * f.carry) ↔
      Fits 128 (z + sign * (chain op steps f).2.carry) := by
  simpa using (hop.carryChain hbytes f).fits_iff 128 z

end Chain

/-- The number whose bytes a chain processes. -/
def number (operand : ByteStep → ℕ) (steps : List ByteStep) : ℕ :=
  Nat.ofDigits 256 (steps.map operand)

/-- The range of the signed numbers of `n` bytes. -/
def halfRange (n : ℕ) : ℤ := 256 ^ n / 2

theorem halfRange_succ (n : ℕ) : halfRange (n + 1) = 256 ^ n * 128 := by
  rw [halfRange, pow_succ]
  omega

/-- A signed number in terms of its signed top byte. -/
theorem signed_number {operand : ByteStep → ℕ} {steps : List ByteStep}
    (hbytes : ∀ x ∈ steps, operand x < 256) (x : ByteStep) :
    signed (halfRange (steps.length + 1)) (number operand (steps ++ [x])) =
      weigh 256 (steps.map fun y => (operand y : ℤ)) (signed 128 (operand x)) := by
  have hdigits : ∀ d ∈ steps.map (fun y => (operand y : ℤ)), 0 ≤ d ∧ d < 256 := by
    intro d hd
    rw [List.mem_map] at hd
    obtain ⟨y, hy, rfl⟩ := hd
    have h := hbytes y hy
    omega
  have hvalue := weigh_ofDigits 256 (steps ++ [x]) operand
  rw [List.map_append, weigh_append] at hvalue
  rw [halfRange_succ, number, ← hvalue, ← signed_weigh hdigits, List.length_map]
  simp [weigh]

section Claim
variable {steps : List ByteStep} (hbytes : ∀ x ∈ steps, x.fst < 256 ∧ x.snd < 256) (f : Flags)
include hbytes

theorem adc_chain_value :
    Nat.ofDigits 256 (chain adc steps f).1 + 256 ^ steps.length * (chain adc steps f).2.carry =
      number ByteStep.fst steps + number ByteStep.snd steps + f.carry := by
  have h := adc_byteOp.chain_value hbytes f
  have hcols := weigh_map_add 256 steps (fun x => (x.fst : ℤ)) (fun x => (x.snd : ℤ)) 0 0
  have hfst := weigh_ofDigits 256 steps ByteStep.fst
  have hsnd := weigh_ofDigits 256 steps ByteStep.snd
  simp only [Nat.cast_ofNat] at hfst hsnd
  rw [add_zero, hfst, hsnd] at hcols
  rw [hcols] at h
  simp only [one_mul] at h
  exact_mod_cast h

theorem sbc_chain_value :
    Nat.ofDigits 256 (chain sbc steps f).1 + (number ByteStep.snd steps + f.carry) =
      number ByteStep.fst steps + 256 ^ steps.length * (chain sbc steps f).2.carry := by
  have h := sbc_byteOp.chain_value hbytes f
  have hcols := weigh_map_sub 256 steps (fun x => (x.fst : ℤ)) (fun x => (x.snd : ℤ)) 0 0
  have hfst := weigh_ofDigits 256 steps ByteStep.fst
  have hsnd := weigh_ofDigits 256 steps ByteStep.snd
  simp only [Nat.cast_ofNat] at hfst hsnd
  rw [sub_zero, hfst, hsnd] at hcols
  rw [hcols] at h
  have hint : ((Nat.ofDigits 256 (chain sbc steps f).1 : ℕ) : ℤ) +
      (number ByteStep.snd steps + f.carry) =
      number ByteStep.fst steps + 256 ^ steps.length * (chain sbc steps f).2.carry := by
    simp only [number]
    linarith
  exact_mod_cast hint

theorem rol_chain_value :
    Nat.ofDigits 256 (chain (fun f arg _ => rol f arg) steps f).1 +
        256 ^ steps.length * (chain (fun f arg _ => rol f arg) steps f).2.carry =
      2 * number ByteStep.fst steps + f.carry := by
  have h := rol_byteOp.chain_value hbytes f
  have hcols := weigh_map_add 256 steps (fun x => (x.fst : ℤ)) (fun x => (x.fst : ℤ)) 0 0
  have hfst := weigh_ofDigits 256 steps ByteStep.fst
  simp only [Nat.cast_ofNat] at hfst
  rw [add_zero, hfst, ← two_mul] at hcols
  rw [hcols] at h
  simp only [one_mul] at h
  exact_mod_cast h

end Claim

theorem adc_chain_OV {steps : List ByteStep} (hn : steps ≠ [])
    (hbytes : ∀ x ∈ steps, x.fst < 256 ∧ x.snd < 256) (f : Flags) :
    (chain adc steps f).2.OV &&& 0x80 ≠ 0 ↔ ¬Fits (halfRange steps.length)
      (signed (halfRange steps.length) (number ByteStep.fst steps) +
        signed (halfRange steps.length) (number ByteStep.snd steps) + f.carry) := by
  rcases List.eq_nil_or_concat' steps with rfl | ⟨init, x, rfl⟩
  · exact absurd rfl hn
  · have hinit : ∀ y ∈ init, y.fst < 256 ∧ y.snd < 256 := fun y hy => hbytes y (by simp [hy])
    have hx := hbytes x (by simp)
    have hcols := weigh_map_add 256 init (fun y => (y.fst : ℤ)) (fun y => (y.snd : ℤ))
      (signed 128 x.fst) (signed 128 x.snd)
    have htop := adc_byteOp.fits_top hinit f (signed 128 x.fst + signed 128 x.snd)
    rw [← signed_number (fun y hy => (hinit y hy).1), ← signed_number (fun y hy => (hinit y hy).2)]
      at hcols
    rw [hcols, one_mul, one_mul, ← halfRange_succ] at htop
    rw [chain_append, adc_OV _ hx.1 hx.2, x.flags_carry, ← htop, List.length_append,
      List.length_singleton]

theorem sbc_chain_OV {steps : List ByteStep} (hn : steps ≠ [])
    (hbytes : ∀ x ∈ steps, x.fst < 256 ∧ x.snd < 256) (f : Flags) :
    (chain sbc steps f).2.OV &&& 0x80 ≠ 0 ↔ ¬Fits (halfRange steps.length)
      (signed (halfRange steps.length) (number ByteStep.fst steps) -
        signed (halfRange steps.length) (number ByteStep.snd steps) - f.carry) := by
  rcases List.eq_nil_or_concat' steps with rfl | ⟨init, x, rfl⟩
  · exact absurd rfl hn
  · have hinit : ∀ y ∈ init, y.fst < 256 ∧ y.snd < 256 := fun y hy => hbytes y (by simp [hy])
    have hx := hbytes x (by simp)
    have hcols := weigh_map_sub 256 init (fun y => (y.fst : ℤ)) (fun y => (y.snd : ℤ))
      (signed 128 x.fst) (signed 128 x.snd)
    have htop := sbc_byteOp.fits_top hinit f (signed 128 x.fst - signed 128 x.snd)
    rw [← signed_number (fun y hy => (hinit y hy).1), ← signed_number (fun y hy => (hinit y hy).2)]
      at hcols
    rw [hcols, neg_one_mul, neg_one_mul, ← sub_eq_add_neg, ← sub_eq_add_neg, ← halfRange_succ]
      at htop
    rw [chain_append, sbc_OV _ hx.1 hx.2, x.flags_carry, ← htop, List.length_append,
      List.length_singleton]

theorem number_lt {operand : ByteStep → ℕ} {steps : List ByteStep}
    (hbytes : ∀ x ∈ steps, operand x < 256) : number operand steps < 256 ^ steps.length := by
  have h := Nat.ofDigits_lt_base_pow_length (b := 256) (l := steps.map operand) (by decide)
    (by simpa using hbytes)
  rwa [List.length_map] at h

theorem Flags.carry_eq_zero {f : Flags} (hC : f.C = 0) : f.carry = 0 := by
  simp [Flags.carry, hC]

theorem Flags.cc_C_iff (f : Flags) : f.cc.C = true ↔ f.carry = 1 := by
  by_cases hC : f.C = 0 <;> simp [Flags.cc, Flags.carry, hC]

theorem Flags.cc_V_iff (f : Flags) : f.cc.V = true ↔ f.OV &&& 0x80 ≠ 0 := decide_eq_true_iff

/-- The digits and the carry that a column value leaves in a number of the range `[0, 2 m)`. -/
theorem mod_and_carry {r c m x : ℕ} (hr : r < m) (hc : c ≤ 1) (h : r + m * c = x) :
    r = x % m ∧ (c = 1 ↔ m ≤ x) := by
  subst h
  rw [Nat.add_mul_mod_self_left, Nat.mod_eq_of_lt hr]
  refine ⟨rfl, ?_⟩
  rcases Nat.le_one_iff_eq_zero_or_eq_one.mp hc with rfl | rfl <;> omega

/-- The bit that leaves a number when it is doubled. -/
theorem testBit_top {m x : ℕ} (hx : x < 2 ^ (m + 1)) : x.testBit m = true ↔ 2 ^ (m + 1) ≤ 2 * x := by
  rw [← Word.and_two_pow_ne_zero, Word.and_two_pow_ne_zero_iff, Nat.mod_eq_of_lt hx, pow_succ]
  omega

/-- The bytes of a chain and the value they have to have. -/
theorem ByteOp.chain_digits {op : Flags → ℕ → ℕ → ℕ × Flags} {sign : ℤ} {total : ℤ → ℤ → ℤ}
    (hop : ByteOp op sign total) {steps : List ByteStep}
    (hbytes : ∀ x ∈ steps, x.fst < 256 ∧ x.snd < 256) (f : Flags) :
    Digits 256 steps.length (chain op steps f).1 (Nat.ofDigits 256 (chain op steps f).1) :=
  ⟨hop.chain_length hbytes f, hop.chain_lt hbytes f, rfl⟩

section Clear
variable {steps : List ByteStep} {f : Flags}
  (hbytes : ∀ x ∈ steps, x.fst < 256 ∧ x.snd < 256) (hC : f.C = 0)
include hbytes hC

theorem adc_chain :
    Digits 256 steps.length (chain adc steps f).1
        ((number ByteStep.fst steps + number ByteStep.snd steps) % 256 ^ steps.length) ∧
      ((chain adc steps f).2.cc.C ↔
        256 ^ steps.length ≤ number ByteStep.fst steps + number ByteStep.snd steps) := by
  have hdigits := adc_byteOp.chain_digits hbytes f
  have hvalue := adc_chain_value hbytes f
  rw [Flags.carry_eq_zero hC, add_zero] at hvalue
  have h := mod_and_carry (hdigits.value_lt (by decide)) (Flags.carry_le _) hvalue
  rw [Flags.cc_C_iff, ← h.1]
  exact ⟨hdigits, h.2⟩

theorem sbc_chain :
    Digits 256 steps.length (chain sbc steps f).1
        ((number ByteStep.fst steps + 256 ^ steps.length - number ByteStep.snd steps) %
          256 ^ steps.length) ∧
      ((chain sbc steps f).2.cc.C ↔
        number ByteStep.fst steps < number ByteStep.snd steps) := by
  have hdigits := sbc_byteOp.chain_digits hbytes f
  have hvalue := sbc_chain_value hbytes f
  rw [Flags.carry_eq_zero hC, add_zero] at hvalue
  have hx : number ByteStep.fst steps < 256 ^ steps.length := number_lt fun z hz => (hbytes z hz).1
  have hy : number ByteStep.snd steps < 256 ^ steps.length := number_lt fun z hz => (hbytes z hz).2
  -- With the complement of the borrow as the carry this is an addition.
  have hsum : Nat.ofDigits 256 (chain sbc steps f).1 +
      256 ^ steps.length * (1 - (chain sbc steps f).2.carry) =
      number ByteStep.fst steps + 256 ^ steps.length - number ByteStep.snd steps := by
    rcases Nat.le_one_iff_eq_zero_or_eq_one.mp (Flags.carry_le (chain sbc steps f).2) with h | h <;>
      rw [h] at hvalue ⊢ <;> omega
  have h := mod_and_carry (hdigits.value_lt (by decide)) (Nat.sub_le _ _) hsum
  rw [Flags.cc_C_iff, ← h.1]
  have hle := Flags.carry_le (chain sbc steps f).2
  exact ⟨hdigits, by omega⟩

theorem rol_chain :
    Digits 256 steps.length (chain (fun f arg _ => rol f arg) steps f).1
        (2 * number ByteStep.fst steps % 256 ^ steps.length) ∧
      ((chain (fun f arg _ => rol f arg) steps f).2.cc.C ↔
        256 ^ steps.length ≤ 2 * number ByteStep.fst steps) := by
  have hdigits := rol_byteOp.chain_digits hbytes f
  have hvalue := rol_chain_value hbytes f
  rw [Flags.carry_eq_zero hC, add_zero] at hvalue
  have h := mod_and_carry (hdigits.value_lt (by decide)) (Flags.carry_le _) hvalue
  rw [Flags.cc_C_iff, ← h.1]
  exact ⟨hdigits, h.2⟩

end Clear

/-- Bytes from the least significant one, in chains of any length, with operations that leave
the carry alone between them. -/
theorem multiprecision {steps : List ByteStep} {f : Flags} (hn : steps ≠ [])
    (hbytes : ∀ x ∈ steps, x.fst < 256 ∧ x.snd < 256) (hC : f.C = 0) :
    let n := steps.length
    let x := number ByteStep.fst steps
    let y := number ByteStep.snd steps
    let half := halfRange n
    let sum := chain adc steps f
    let difference := chain sbc steps f
    let double := chain (fun f arg _ => rol f arg) steps f
    (Digits 256 n sum.1 ((x + y) % 256 ^ n) ∧ (sum.2.cc.C ↔ 256 ^ n ≤ x + y) ∧
        (sum.2.cc.V ↔ ¬Fits half (signed half x + signed half y))) ∧
      (Digits 256 n difference.1 ((x + 256 ^ n - y) % 256 ^ n) ∧ (difference.2.cc.C ↔ x < y) ∧
        (difference.2.cc.V ↔ ¬Fits half (signed half x - signed half y))) ∧
      Digits 256 n double.1 (2 * x % 256 ^ n) ∧ (double.2.cc.C ↔ x.testBit (8 * n - 1)) := by
  intro n x y half sum difference double
  have hsum := adc_chain hbytes hC
  have hdifference := sbc_chain hbytes hC
  have hdouble := rol_chain hbytes hC
  have hsumV := adc_chain_OV hn hbytes f
  have hdifferenceV := sbc_chain_OV hn hbytes f
  rw [Flags.carry_eq_zero hC, Nat.cast_zero, add_zero] at hsumV
  rw [Flags.carry_eq_zero hC, Nat.cast_zero, sub_zero] at hdifferenceV
  have hpos : 0 < n := List.length_pos_iff.mpr hn
  have hpow : 256 ^ n = 2 ^ (8 * n - 1 + 1) := by
    rw [Nat.sub_add_cancel (by omega), pow_mul]
    rfl
  have hx : x < 256 ^ n := number_lt fun z hz => (hbytes z hz).1
  have htop := testBit_top (hpow ▸ hx)
  refine ⟨⟨hsum.1, hsum.2, ?_⟩, ⟨hdifference.1, hdifference.2, ?_⟩, hdouble.1, ?_⟩
  · rw [Flags.cc_V_iff, hsumV]
  · rw [Flags.cc_V_iff, hdifferenceV]
  · rw [htop, ← hpow, hdouble.2]

/-- `0x7fff + 0x0001`, with a decrement of a loop counter before the second byte. -/
def twoBytes : List ByteStep := [⟨[], 0xff, 0x01⟩, ⟨[.dec 2], 0x7f, 0x00⟩]

theorem multiprecision_two : Digits 256 2 (chain adc twoBytes ⟨0, 0, 0, 0, 0⟩).1 0x8000 := by
  have hn : twoBytes ≠ [] := by decide
  have hbytes : ∀ x ∈ twoBytes, x.fst < 256 ∧ x.snd < 256 := by decide
  have hC : (⟨0, 0, 0, 0, 0⟩ : Flags).C = 0 := rfl
  exact (multiprecision hn hbytes hC).1.1

end Exec09
