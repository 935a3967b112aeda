import Exec09.Cpu.Multiprecision

/-! # Packed decimal addition

`daa` adds 0x60 in two statements of its own, one for a high digit that a carry
from the low digit pushes over 9 and one for a high digit above 9 by itself. A
byte in which both digits end between 10 and 15 meets both conditions.
-/
namespace Exec09
open Foundation Foundation.Radix

/-- Both digits of a packed decimal byte are at most 9. -/
def Packed (a : ℕ) : Prop := a % 16 ≤ 9 ∧ a / 16 ≤ 9

instance (a : ℕ) : Decidable (Packed a) := inferInstanceAs (Decidable (_ ∧ _))

def decimal (a : ℕ) : ℕ := 10 * (a / 16) + a % 16

def pack (d : ℕ) : ℕ := 16 * (d / 10) + d % 10

theorem decimal_pack (d : ℕ) : decimal (pack d) = d := by
  unfold decimal pack
  omega

theorem packed_pack {d : ℕ} (h : d < 100) : Packed (pack d) := by
  unfold Packed pack
  omega

theorem pack_decimal {a : ℕ} (h : Packed a) : pack (decimal a) = a := by
  unfold Packed at h
  unfold decimal pack
  omega

theorem decimal_lt {a : ℕ} (h : Packed a) : decimal a < 100 := by
  unfold Packed at h
  unfold decimal
  omega

theorem Packed.lt {a : ℕ} (h : Packed a) : a < 256 := by
  unfold Packed at h
  omega

/-- The digit sums of a byte for which `daa` corrects the high digit twice. -/
def Doubled (low high : ℕ) : Prop := 10 ≤ low ∧ low < 16 ∧ 10 ≤ high ∧ high < 16

instance (low high : ℕ) : Decidable (Doubled low high) := inferInstanceAs (Decidable (_ ∧ _))

/-- `adc` followed by `daa`. -/
def adcDaa (f : Flags) (a v : ℕ) : ℕ × Flags :=
  let sum := adc f a v
  daa sum.2 sum.1

/-! ## One byte -/

theorem and_nibble_ne_zero (x : ℕ) : x &&& 0x10 ≠ 0 ↔ 16 ≤ x % 32 :=
  Word.and_two_pow_ne_zero_iff x 4

theorem nibble_xor (x y : ℕ) : (x ^^^ y) &&& 0x10 ≠ 0 ↔ ¬(x &&& 0x10 ≠ 0 ↔ y &&& 0x10 ≠ 0) :=
  Word.xor_and_two_pow_ne_zero x y 4

theorem and_15 (x : ℕ) : x &&& 0x0f = x % 16 := Nat.and_two_pow_sub_one_eq_mod x 4

theorem and_240 {x : ℕ} (h : x < 256) : x &&& 0xf0 = 16 * (x / 16) := by
  have hall : ∀ y < 256, y &&& 0xf0 = 16 * (y / 16) := by decide +kernel
  exact hall x h

/-- Bit 4 of the word that `adc` leaves in `H` is the carry out of the low digit. -/
theorem adc_H (f : Flags) {a v : ℕ} (ha : a < 256) (hv : v < 256) :
    (adc f a v).2.H &&& 0x10 ≠ 0 ↔ 16 ≤ a % 16 + v % 16 + f.carry := by
  have hf := f.carry_le
  have hC : (adc f a v).2.C &&& 0x10 = 0 := by
    have hmask : 0x80 &&& 0x10 = 0 := rfl
    simp only [adc, Nat.and_assoc, hmask, Nat.and_zero]
  have hH : (adc f a v).2.H = a ^^^ v ^^^ (adc f a v).1 ^^^ (adc f a v).2.C := rfl
  rw [hH, nibble_xor, nibble_xor, nibble_xor, hC, adc_fst f ha hv, and_nibble_ne_zero,
    and_nibble_ne_zero, and_nibble_ne_zero]
  omega

/-- The sum of `A` and the corrections that `daa` adds, before it is cut to a byte. -/
def corrected (f : Flags) (A : ℕ) : ℕ :=
  A + (if A % 16 > 0x09 ∨ f.H &&& 0x10 ≠ 0 then 0x06 else 0) +
    (if 16 * (A / 16) > 0x80 ∧ A % 16 > 0x09 then 0x60 else 0) +
    if 16 * (A / 16) > 0x90 ∨ f.C ≠ 0 then 0x60 else 0

theorem daa_eq (f : Flags) {A : ℕ} (hA : A < 256) :
    (daa f A).1 = corrected f A % 256 ∧
      ((daa f A).2.C ≠ 0 ↔ f.C ≠ 0 ∨ 256 ≤ corrected f A % 512) := by
  have h : (daa f A).1 = corrected f A &&& 0xff ∧
      (daa f A).2.C = f.C ||| (corrected f A &&& 0x100) := by
    simp only [daa, corrected, and_15, and_240 hA]
    constructor <;> split_ifs <;> rfl
  rw [h.1, h.2, Word.and_255, ← and_carry_ne_zero, Ne, Nat.or_eq_zero_iff, not_and_or]
  exact ⟨rfl, Iff.rfl⟩

/-- The digit sums of two packed bytes and a carry are at most 19 and 18. -/
theorem corrected_digits : ∀ low < 20, ∀ high < 19,
    ((16 * high + low) % 256 + (if 10 ≤ low then 0x06 else 0) +
        (if 9 ≤ high ∧ high < 16 ∧ 10 ≤ low ∧ low < 16 then 0x60 else 0) +
        if 160 ≤ 16 * high + low then 0x60 else 0) % 256 =
      pack ((10 * high + low) % 100) + if Doubled low high then 0x60 else 0 := by
  decide +kernel

section Byte
variable (f : Flags) {a v : ℕ} (ha : Packed a) (hv : Packed v)
include ha hv

/-- What `daa` makes of the binary sum, in terms of the digit sums. -/
theorem corrected_adc :
    corrected (adc f a v).2 (adc f a v).1 =
      (16 * (a / 16 + v / 16) + (a % 16 + v % 16 + f.carry)) % 256 +
        (if 10 ≤ a % 16 + v % 16 + f.carry then 0x06 else 0) +
        (if 9 ≤ a / 16 + v / 16 ∧ a / 16 + v / 16 < 16 ∧
            10 ≤ a % 16 + v % 16 + f.carry ∧ a % 16 + v % 16 + f.carry < 16 then 0x60 else 0) +
        if 160 ≤ 16 * (a / 16 + v / 16) + (a % 16 + v % 16 + f.carry) then 0x60 else 0 := by
  have hf := f.carry_le
  have hH := adc_H f ha.lt hv.lt
  have hC := adc_C f ha.lt hv.lt
  have hA := adc_fst f ha.lt hv.lt
  unfold Packed at ha hv
  simp only [corrected, hH, hC, hA]
  split_ifs <;> omega

theorem adcDaa_C : (adcDaa f a v).2.C ≠ 0 ↔ 100 ≤ decimal a + decimal v + f.carry := by
  have hf := f.carry_le
  have hA := adc_fst f ha.lt hv.lt
  have hlt : (adc f a v).1 < 256 := by omega
  rw [adcDaa, (daa_eq _ hlt).2, adc_C f ha.lt hv.lt, corrected_adc f ha hv]
  unfold Packed at ha hv
  unfold decimal
  split_ifs <;> omega

/-- The result is right unless both conditions for the high digit hold; then it is 0x60 more. -/
theorem adcDaa_fst : (adcDaa f a v).1 =
    pack ((decimal a + decimal v + f.carry) % 100) +
      if Doubled (a % 16 + v % 16 + f.carry) (a / 16 + v / 16) then 0x60 else 0 := by
  have hf := f.carry_le
  have hA := adc_fst f ha.lt hv.lt
  have hlt : (adc f a v).1 < 256 := by omega
  rw [adcDaa, (daa_eq _ hlt).1, corrected_adc f ha hv]
  unfold Packed at ha hv
  have hsum : decimal a + decimal v + f.carry =
      10 * (a / 16 + v / 16) + (a % 16 + v % 16 + f.carry) := by
    unfold decimal
    omega
  rw [hsum]
  exact corrected_digits _ (by omega) _ (by omega)

end Byte

/-! ## Numbers of any length -/

/-- The digits in base 100 of the sum of all columns and the carry out of the last. -/
def decimalSum : ℕ → List ByteStep → List ℕ × ℕ
  | k, [] => ([], k)
  | k, x :: steps =>
    let total := decimal x.fst + decimal x.snd + k
    let rest := decimalSum (total / 100) steps
    (total % 100 :: rest.1, rest.2)

/-- In no column do both digit sums lie between 10 and 15, the decimal carry included. -/
def NeverDoubled : ℕ → List ByteStep → Prop
  | _, [] => True
  | k, x :: steps => ¬Doubled (x.fst % 16 + x.snd % 16 + k) (x.fst / 16 + x.snd / 16) ∧
      NeverDoubled ((decimal x.fst + decimal x.snd + k) / 100) steps

instance NeverDoubled.decidable : ∀ (k : ℕ) (steps : List ByteStep), Decidable (NeverDoubled k steps)
  | _, [] => isTrue trivial
  | k, x :: steps =>
    have := NeverDoubled.decidable ((decimal x.fst + decimal x.snd + k) / 100) steps
    inferInstanceAs (Decidable (_ ∧ _))

def decimalNumber (operand : ByteStep → ℕ) (steps : List ByteStep) : ℕ :=
  Nat.ofDigits 100 (steps.map fun x => decimal (operand x))

theorem decimalSum_carryChain (k : ℕ) (steps : List ByteStep) :
    CarryChain 100 k (steps.map fun x => (decimal x.fst : ℤ) + decimal x.snd)
      ((decimalSum k steps).1.map (↑)) (decimalSum k steps).2 := by
  induction steps generalizing k with
  | nil => exact .nil _
  | cons x steps ih =>
    refine .cons (by omega) ?_ (ih _)
    dsimp only
    omega

theorem decimalSum_length (k : ℕ) (steps : List ByteStep) :
    (decimalSum k steps).1.length = steps.length := by
  simpa using (decimalSum_carryChain k steps).length_eq

theorem decimalSum_lt (k : ℕ) (steps : List ByteStep) : ∀ d ∈ (decimalSum k steps).1, d < 100 := by
  intro d hd
  have h := (decimalSum_carryChain k steps).digits d (List.mem_map_of_mem hd)
  omega

theorem decimalSum_value (k : ℕ) (steps : List ByteStep) :
    Nat.ofDigits 100 (decimalSum k steps).1 + 100 ^ steps.length * (decimalSum k steps).2 =
      decimalNumber ByteStep.fst steps + decimalNumber ByteStep.snd steps + k := by
  have h := (decimalSum_carryChain k steps).value_eq
  have hcols := weigh_map_add 100 steps (fun x => (decimal x.fst : ℤ))
    (fun x => (decimal x.snd : ℤ)) 0 0
  have hfst := weigh_ofDigits 100 steps fun x => decimal x.fst
  have hsnd := weigh_ofDigits 100 steps fun x => decimal x.snd
  have hdigits := weigh_ofDigits 100 (decimalSum k steps).1 id
  simp only [Nat.cast_ofNat, id_eq, List.map_id_fun] at hfst hsnd hdigits
  rw [add_zero, hfst, hsnd] at hcols
  rw [hcols, hdigits, List.length_map, decimalSum_length] at h
  exact_mod_cast h

theorem decimalSum_carry_le {k : ℕ} {steps : List ByteStep} (hk : k ≤ 1)
    (hp : ∀ x ∈ steps, Packed x.fst ∧ Packed x.snd) : (decimalSum k steps).2 ≤ 1 := by
  induction steps generalizing k with
  | nil => exact hk
  | cons x steps ih =>
    rw [List.forall_mem_cons] at hp
    have hfst := decimal_lt hp.1.1
    have hsnd := decimal_lt hp.1.2
    exact ih (by omega) hp.2

/-- One step of a chain of `adcDaa`, with the flags that the operations before the byte leave. -/
theorem adcDaa_step {x : ByteStep} (hx : Packed x.fst ∧ Packed x.snd) (f : Flags) :
    (adcDaa (x.flags f) x.fst x.snd).2.carry = (decimal x.fst + decimal x.snd + f.carry) / 100 := by
  have hf := f.carry_le
  have hfst := decimal_lt hx.1
  have hsnd := decimal_lt hx.2
  rw [Flags.carry_of_iff (adcDaa_C _ hx.1 hx.2), x.flags_carry]
  split <;> omega

/-- The carry of the chain is the decimal carry, also past a byte that is wrong. -/
theorem chain_carry {steps : List ByteStep} (hp : ∀ x ∈ steps, Packed x.fst ∧ Packed x.snd)
    (f : Flags) : (chain adcDaa steps f).2.carry = (decimalSum f.carry steps).2 := by
  induction steps generalizing f with
  | nil => rfl
  | cons x steps ih =>
    rw [List.forall_mem_cons] at hp
    simp only [chain, decimalSum, ih hp.2, adcDaa_step hp.1]

/-- The bytes are those of the decimal sum exactly if none is corrected twice. -/
theorem chain_eq_iff {steps : List ByteStep} (hp : ∀ x ∈ steps, Packed x.fst ∧ Packed x.snd)
    (f : Flags) : (chain adcDaa steps f).1 = (decimalSum f.carry steps).1.map pack ↔
      NeverDoubled f.carry steps := by
  induction steps generalizing f with
  | nil => simp [chain, decimalSum, NeverDoubled]
  | cons x steps ih =>
    rw [List.forall_mem_cons] at hp
    have hbyte := adcDaa_fst (x.flags f) hp.1.1 hp.1.2
    have hrest := ih hp.2 (adcDaa (x.flags f) x.fst x.snd).2
    rw [x.flags_carry] at hbyte
    rw [adcDaa_step hp.1] at hrest
    simp only [chain, decimalSum, NeverDoubled, List.map_cons, List.cons.injEq, hrest, hbyte]
    by_cases hd : Doubled (x.fst % 16 + x.snd % 16 + f.carry) (x.fst / 16 + x.snd / 16) <;>
      simp [hd]

/-- Packed bytes are determined by their decimal value. -/
theorem packed_digits_iff {rs : List ℕ} (k : ℕ) (steps : List ByteStep) :
    ((∀ r ∈ rs, Packed r) ∧ Digits 100 steps.length (rs.map decimal)
        (Nat.ofDigits 100 (decimalSum k steps).1)) ↔ rs = (decimalSum k steps).1.map pack := by
  constructor
  · rintro ⟨hpacked, hdigits⟩
    have hlen := hdigits.length_eq.trans (decimalSum_length k steps).symm
    have hmap := Nat.ofDigits_inj_of_len_eq (by decide : 1 < 100) hlen hdigits.lt
      (decimalSum_lt k steps) hdigits.value
    rw [← hmap, List.map_map]
    exact (List.map_congr_left fun r hr => pack_decimal (hpacked r hr)).trans rs.map_id |>.symm
  · rintro rfl
    have hmap : ((decimalSum k steps).1.map pack).map decimal = (decimalSum k steps).1 := by
      rw [List.map_map]
      exact List.map_id'' decimal_pack _
    rw [hmap]
    refine ⟨?_, decimalSum_length k steps, decimalSum_lt k steps, rfl⟩
    intro r hr
    obtain ⟨d, hd, rfl⟩ := List.mem_map.mp hr
    exact packed_pack (decimalSum_lt k steps d hd)

/-- Packed-decimal addition is right exactly where no byte is corrected twice; the carry is
always right. -/
theorem decimal_addition_iff {steps : List ByteStep}
    (hp : ∀ x ∈ steps, Packed x.fst ∧ Packed x.snd) (f : Flags) :
    let n := steps.length
    let sum := decimalNumber ByteStep.fst steps + decimalNumber ByteStep.snd steps + f.carry
    let result := chain adcDaa steps f
    ((∀ r ∈ result.1, Packed r) ∧ Digits 100 n (result.1.map decimal) (sum % 100 ^ n) ∧
        (result.2.cc.C ↔ 100 ^ n ≤ sum)) ↔ NeverDoubled f.carry steps := by
  intro n sum result
  have hlt : Nat.ofDigits 100 (decimalSum f.carry steps).1 < 100 ^ n := by
    have h := Nat.ofDigits_lt_base_pow_length (by decide : 1 < 100) (decimalSum_lt f.carry steps)
    rwa [decimalSum_length] at h
  have hsum := mod_and_carry hlt (decimalSum_carry_le f.carry_le hp)
    (decimalSum_value f.carry steps)
  have hcarry : result.2.cc.C ↔ 100 ^ n ≤ sum := by
    rw [Flags.cc_C_iff, chain_carry hp, hsum.2]
  rw [← chain_eq_iff hp, ← packed_digits_iff, hsum.1, ← and_assoc, and_iff_left hcarry]

/-- `1999 + 2801`. -/
def fourDigits : List ByteStep := [⟨[], 0x99, 0x01⟩, ⟨[], 0x19, 0x28⟩]

theorem decimal_addition_fourDigits :
    Digits 100 2 ((chain adcDaa fourDigits ⟨0, 0, 0, 0, 0⟩).1.map decimal) 4800 := by
  have hp : ∀ x ∈ fourDigits, Packed x.fst ∧ Packed x.snd := by decide
  exact ((decimal_addition_iff hp ⟨0, 0, 0, 0, 0⟩).mpr (by decide)).2.1

/-- `55 + 55` gives `0x70` in place of `0x10`. -/
theorem decimal_addition_55 :
    ¬∀ (steps : List ByteStep) (f : Flags), (∀ x ∈ steps, Packed x.fst ∧ Packed x.snd) →
      let n := steps.length
      let sum := decimalNumber ByteStep.fst steps + decimalNumber ByteStep.snd steps + f.carry
      let result := chain adcDaa steps f
      (∀ r ∈ result.1, Packed r) ∧ Digits 100 n (result.1.map decimal) (sum % 100 ^ n) ∧
        (result.2.cc.C ↔ 100 ^ n ≤ sum) := by
  intro h
  have hdigits := (h [⟨[], 0x55, 0x55⟩] ⟨0, 0, 0, 0, 0⟩ (by decide)).2.1
  exact absurd hdigits.value (by decide +kernel)

end Exec09
