import Exec09.Cpu.Instruction
import Exec09.Cpu.Multiprecision

/-! # Arithmetic on words

`addd`, `subd` and `cmp16` compute on 16 bits at once. They leave what the byte
operations leave that are chained by the carry.
-/
namespace Exec09
open Foundation Foundation.Radix
variable {β : Type}

/-- The bit of a word that holds its sign, where the flags of the words have it. -/
theorem shift_sign_ne_zero (x : ℕ) : (x >>> 8) &&& 0x80 ≠ 0 ↔ 32768 ≤ x % 65536 := by
  rw [and_sign_ne_zero, Nat.shiftRight_eq_div_pow]
  omega

theorem and_wide_carry_ne_zero (x : ℕ) : x &&& 0x10000 ≠ 0 ↔ 65536 ≤ x % 131072 :=
  Word.and_two_pow_ne_zero_iff x 16

theorem shift_sign_xor (x y : ℕ) : ((x ^^^ y) >>> 8) &&& 0x80 ≠ 0 ↔
    ¬((x >>> 8) &&& 0x80 ≠ 0 ↔ (y >>> 8) &&& 0x80 ≠ 0) := by
  rw [Nat.shiftRight_xor_distrib]
  exact sign_xor _ _

theorem shift_sign_and (x y : ℕ) : ((x &&& y) >>> 8) &&& 0x80 ≠ 0 ↔
    (x >>> 8) &&& 0x80 ≠ 0 ∧ (y >>> 8) &&& 0x80 ≠ 0 := by
  rw [Nat.shiftRight_and_distrib]
  exact sign_and _ _

/-! ## One word -/

section Words
variable (f : Flags) {a v : ℕ} (ha : a < 65536) (hv : v < 65536)
include ha hv

theorem addd_fst : (addd f a v).1 = (a + v) % 65536 := by
  have hsum : a + v < 2 ^ 32 := by omega
  simp only [addd, uint_of_lt hsum, Word.and_65535]

theorem addd_C : (addd f a v).2.C ≠ 0 ↔ 65536 ≤ a + v := by
  have hsum : a + v < 2 ^ 32 := by omega
  simp only [addd, uint_of_lt hsum, and_wide_carry_ne_zero]
  omega

theorem addd_OV : (addd f a v).2.OV &&& 0x80 ≠ 0 ↔
    ¬Fits 32768 (signed 32768 a + signed 32768 v) := by
  have hr := addd_fst f ha hv
  have hOV : (addd f a v).2.OV = ((a ^^^ (addd f a v).1) &&& (v ^^^ (addd f a v).1)) >>> 8 := rfl
  rw [hOV, shift_sign_and, shift_sign_xor, shift_sign_xor, hr, shift_sign_ne_zero,
    shift_sign_ne_zero, shift_sign_ne_zero, Fits, signed, signed]
  split <;> split <;> omega

theorem subd_difference : usub a v = if v ≤ a then a - v else 2 ^ 32 + a - v := by
  simp only [Word.sub]
  split <;> omega

theorem subd_fst : (subd f a v).1 = (65536 + a - v) % 65536 := by
  simp only [subd, subd_difference ha hv, Word.and_65535]
  split <;> omega

theorem subd_C : (subd f a v).2.C ≠ 0 ↔ a < v := by
  simp only [subd, subd_difference ha hv, and_wide_carry_ne_zero]
  split <;> omega

theorem subd_OV : (subd f a v).2.OV &&& 0x80 ≠ 0 ↔
    ¬Fits 32768 (signed 32768 a - signed 32768 v) := by
  have hr := subd_fst f ha hv
  have hOV : (subd f a v).2.OV = ((a ^^^ v) &&& (a ^^^ (subd f a v).1)) >>> 8 := rfl
  rw [hOV, shift_sign_and, shift_sign_xor, shift_sign_xor, hr, shift_sign_ne_zero,
    shift_sign_ne_zero, shift_sign_ne_zero, Fits, signed, signed]
  split <;> split <;> omega

end Words

/-! ## Bytes chained by the carry -/

theorem add_eq_adc (f : Flags) (a v : ℕ) : add f a v = adc { f with C := 0 } a v := rfl

theorem sub_eq_sbc (f : Flags) (a v : ℕ) : sub f a v = sbc { f with C := 0 } a v := by
  have hcarry : ({ f with C := 0 } : Flags).carry = 0 := rfl
  have hsame : usub (usub a v) ({ f with C := 0 } : Flags).carry = usub a v := by
    rw [hcarry]
    simp only [Word.sub]
    omega
  rw [sub, sbc, hsame]

/-- The same N, V and C. -/
structure SameNvc (f g : Flags) : Prop where
  N : f.N &&& 0x80 ≠ 0 ↔ g.N &&& 0x80 ≠ 0
  OV : f.OV &&& 0x80 ≠ 0 ↔ g.OV &&& 0x80 ≠ 0
  C : f.C ≠ 0 ↔ g.C ≠ 0

theorem word_split {A B : ℕ} (hB : B < 256) : (A <<< 8) ||| B = A * 256 + B := by
  rw [Nat.shiftLeft_eq, Nat.mul_comm, ← Nat.two_pow_add_eq_or_of_lt (i := 8) hB, Nat.mul_comm]

/-- The sign of a word is the sign of its high byte. -/
theorem signed_word {h l : ℕ} (hh : h < 256) (hl : l < 256) :
    signed 32768 (h * 256 + l : ℕ) = signed 128 h * 256 + l := by
  simp only [signed]
  split <;> split <;> push_cast at * <;> omega

/-! What is carried from the low byte to the high one. -/

section Carries
variable {A B v : ℕ}

theorem sum_fst (hB : B < 256) : (A * 256 + B + v) % 65536 / 256 =
    (A + v / 256 + if 256 ≤ B + v % 256 then 1 else 0) % 256 := by
  split <;> omega

theorem sum_snd : (A * 256 + B + v) % 65536 % 256 = (B + v % 256) % 256 := by omega

theorem sum_carry (hB : B < 256) : 65536 ≤ A * 256 + B + v ↔
    256 ≤ A + v / 256 + if 256 ≤ B + v % 256 then 1 else 0 := by
  split <;> omega

theorem sum_fits {x y : ℤ} (hB : B < 256) : Fits 32768 (x * 256 + B + (y * 256 + (v % 256 : ℕ))) ↔
    Fits 128 (x + y + (if 256 ≤ B + v % 256 then 1 else 0 : ℕ)) := by
  rw [Fits, Fits]
  split <;> push_cast <;> omega

theorem difference_fst (hB : B < 256) (hv : v < 65536) : (65536 + (A * 256 + B) - v) % 65536 / 256 =
    (256 + A - (v / 256 + if B < v % 256 then 1 else 0)) % 256 := by
  split <;> omega

theorem difference_snd (hv : v < 65536) :
    (65536 + (A * 256 + B) - v) % 65536 % 256 = (256 + B - v % 256) % 256 := by omega

theorem difference_borrow (hB : B < 256) : A * 256 + B < v ↔
    A < v / 256 + if B < v % 256 then 1 else 0 := by
  split <;> omega

theorem difference_fits {x y : ℤ} (hB : B < 256) :
    Fits 32768 (x * 256 + B - (y * 256 + (v % 256 : ℕ))) ↔
      Fits 128 (x - y - (if B < v % 256 then 1 else 0 : ℕ)) := by
  rw [Fits, Fits]
  split <;> push_cast <;> omega

theorem sign_fst (w : ℕ) : 32768 ≤ w % 65536 ↔ 128 ≤ w % 65536 / 256 % 256 := by omega

theorem word_eq_zero (w : ℕ) : w = 0 ↔ w / 256 = 0 ∧ w % 256 = 0 := by omega

end Carries

/-- A word in two steps, `lo` being the low one, and the flags of each. -/
structure Chained (w hi lo : ℕ × Flags) : Prop where
  fst : w.1 / 256 = hi.1
  snd : w.1 % 256 = lo.1
  flags : SameNvc w.2 hi.2
  zero : w.2.Z = 0 ↔ hi.1 = 0 ∧ lo.1 = 0

/-- The words are kept with their signs and their zeros by every one of the operations. -/
theorem Chained.of_bytes {w hi lo : ℕ × Flags} (hlt : w.1 < 65536) (hN : w.2.N = w.1 >>> 8)
    (hZ : w.2.Z = w.1) (hNhi : hi.2.N = hi.1) (hfst : w.1 / 256 = hi.1) (hsnd : w.1 % 256 = lo.1)
    (hOV : w.2.OV &&& 0x80 ≠ 0 ↔ hi.2.OV &&& 0x80 ≠ 0) (hC : w.2.C ≠ 0 ↔ hi.2.C ≠ 0) :
    Chained w hi lo where
  fst := hfst
  snd := hsnd
  flags := by
    refine ⟨?_, hOV, hC⟩
    rw [hN, hNhi, shift_sign_ne_zero, and_sign_ne_zero, sign_fst, Nat.mod_eq_of_lt hlt, hfst]
  zero := by rw [hZ, word_eq_zero, hfst, hsnd]

section Chain
variable (f : Flags) {A B v : ℕ} (hA : A < 256) (hB : B < 256) (hv : v < 65536)
include hA hB hv

theorem addd_chained {lo hi : ℕ × Flags} (hlo : add f B (v % 256) = lo)
    (hhi : adc lo.2 A (v / 256) = hi) : Chained (addd f (A * 256 + B) v) hi lo := by
  have hD : A * 256 + B < 65536 := by omega
  have hl : v % 256 < 256 := Nat.mod_lt _ (by decide)
  have hh : v / 256 < 256 := by omega
  have hsplit : v = v / 256 * 256 + v % 256 := by omega
  have hcarry : ({ f with C := 0 } : Flags).carry = 0 := rfl
  rw [add_eq_adc] at hlo
  have hlow := adc_fst { f with C := 0 } hB hl
  have hborrow := adc_C { f with C := 0 } hB hl
  rw [hlo, hcarry, Nat.add_zero] at hlow hborrow
  have hhigh := adc_fst lo.2 hA hh
  have hC := adc_C lo.2 hA hh
  have hOV := adc_OV lo.2 hA hh
  rw [hhi, Flags.carry_of_iff hborrow] at hhigh hC hOV
  have hword := addd_fst f hD hv
  have hN : hi.2.N = hi.1 := by
    rw [← hhi]
    rfl
  have hfits := addd_OV f hD hv
  have hsigned : signed 32768 (v : ℤ) = signed 128 (v / 256 : ℕ) * 256 + (v % 256 : ℕ) := by
    conv_lhs => rw [hsplit]
    exact signed_word hh hl
  rw [signed_word hA hB, hsigned, sum_fits hB] at hfits
  have hlt : (addd f (A * 256 + B) v).1 < 65536 := by
    rw [hword]
    exact Nat.mod_lt _ (by decide)
  refine Chained.of_bytes hlt rfl rfl hN ?_ ?_ (hfits.trans hOV.symm) ?_
  · rw [hword, hhigh, sum_fst hB]
  · rw [hword, hlow, sum_snd]
  · rw [addd_C f hD hv, hC, sum_carry hB]

theorem subd_chained {lo hi : ℕ × Flags} (hlo : sub f B (v % 256) = lo)
    (hhi : sbc lo.2 A (v / 256) = hi) : Chained (subd f (A * 256 + B) v) hi lo := by
  have hD : A * 256 + B < 65536 := by omega
  have hl : v % 256 < 256 := Nat.mod_lt _ (by decide)
  have hh : v / 256 < 256 := by omega
  have hsplit : v = v / 256 * 256 + v % 256 := by omega
  have hcarry : ({ f with C := 0 } : Flags).carry = 0 := rfl
  rw [sub_eq_sbc] at hlo
  have hlow := sbc_fst { f with C := 0 } hB hl
  have hborrow := sbc_C { f with C := 0 } hB hl
  rw [hlo, hcarry, Nat.add_zero] at hlow hborrow
  have hhigh := sbc_fst lo.2 hA hh
  have hC := sbc_C lo.2 hA hh
  have hOV := sbc_OV lo.2 hA hh
  rw [hhi, Flags.carry_of_iff hborrow] at hhigh hC hOV
  have hword := subd_fst f hD hv
  have hN : hi.2.N = hi.1 := by
    rw [← hhi]
    rfl
  have hfits := subd_OV f hD hv
  have hsigned : signed 32768 (v : ℤ) = signed 128 (v / 256 : ℕ) * 256 + (v % 256 : ℕ) := by
    conv_lhs => rw [hsplit]
    exact signed_word hh hl
  rw [signed_word hA hB, hsigned, difference_fits hB] at hfits
  have hlt : (subd f (A * 256 + B) v).1 < 65536 := by
    rw [hword]
    exact Nat.mod_lt _ (by decide)
  refine Chained.of_bytes hlt rfl rfl hN ?_ ?_ (hfits.trans hOV.symm) ?_
  · rw [hword, hhigh, difference_fst hB hv]
  · rw [hword, hlow, difference_snd hv]
  · rw [subd_C f hD hv, hC, difference_borrow hB]

end Chain

/-! ## The instructions on `D` -/

/-- `addd` of the source, on the globals. -/
def addWord (val : ℕ) : CpuM β Unit := do
  let arg ← look getD
  setD (← withFlags (Exec09.addd · arg val))

def subWord (val : ℕ) : CpuM β Unit := do
  let arg ← look getD
  setD (← withFlags (Exec09.subd · arg val))

def cmpWord (val : ℕ) : CpuM β Unit := do
  let arg ← look getD
  updateFlags (Exec09.cmp16 · arg val)

/-- `low` on `B` with the low byte, and then `high` on `A` with the high byte. -/
def byBytes (low high : Flags → ℕ → ℕ → ℕ × Flags) (val : ℕ) : CpuM β Unit := do
  let B ← look Cpu.B
  setB (← withFlags (low · B (val &&& 0xff)))
  let A ← look Cpu.A
  setA (← withFlags (high · A (val >>> 8)))

/-- The same `D`, N, V and C, and Z where the whole word is zero. -/
structure SameWord (w b : Cpu β) : Prop where
  A : w.A = b.A
  B : w.B = b.B
  flags : SameNvc w.flags b.flags
  zero : w.flags.Z = 0 ↔ w.A = 0 ∧ w.B = 0

theorem Chained.sameWord {w hi lo : ℕ × Flags} (h : Chained w hi lo) {t u : Cpu β}
    (ht : t.A = w.1 >>> 8 ∧ t.B = w.1 &&& 0xff ∧ t.flags = w.2)
    (hu : u.A = hi.1 ∧ u.B = lo.1 ∧ u.flags = hi.2) : SameWord t u := by
  obtain ⟨htA, htB, htf⟩ := ht
  obtain ⟨huA, huB, huf⟩ := hu
  have hA : t.A = hi.1 := by
    rw [htA, Nat.shiftRight_eq_div_pow]
    exact h.fst
  have hB : t.B = lo.1 := by
    rw [htB, Word.and_255]
    exact h.snd
  refine ⟨hA.trans huA.symm, hB.trans huB.symm, ?_, ?_⟩
  · rw [htf, huf]
    exact h.flags
  · rw [htf, hA, hB]
    exact h.zero

/-- The operations on words are the byte operations with the carry between them. -/
theorem words_as_bytes (s : Cpu β) (hA : s.A < 256) (hB : s.B < 256) {val : ℕ} (hv : val < 65536) :
    (∃ w b, addWord val s = .ok () w ∧ byBytes add adc val s = .ok () b ∧ SameWord w b) ∧
    (∃ w b, subWord val s = .ok () w ∧ byBytes sub sbc val s = .ok () b ∧ SameWord w b) ∧
    ∃ c w, cmpWord val s = .ok () c ∧ subWord val s = .ok () w ∧ c.A = s.A ∧ c.B = s.B ∧
      SameNvc c.flags w.flags ∧ (c.flags.Z = 0 ↔ w.flags.Z = 0) ∧
      (c.flags.Z = 0 ↔ w.A = 0 ∧ w.B = 0) := by
  have hD : getD s = s.A * 256 + s.B := word_split hB
  have hlow : val &&& 0xff = val % 256 := Word.and_255 val
  have hhigh : val >>> 8 = val / 256 := Nat.shiftRight_eq_div_pow val 8
  have hsub : SameWord (finalState (subWord val s)) (finalState (byBytes sub sbc val s)) := by
    have hchained := subd_chained s.flags hA hB hv rfl rfl
    rw [← hD, ← hlow, ← hhigh] at hchained
    exact hchained.sameWord ⟨rfl, rfl, rfl⟩ ⟨rfl, rfl, rfl⟩
  refine ⟨⟨_, _, rfl, rfl, ?_⟩, ⟨_, _, rfl, rfl, hsub⟩, ?_⟩
  · have hchained := addd_chained s.flags hA hB hv rfl rfl
    rw [← hD, ← hlow, ← hhigh] at hchained
    exact hchained.sameWord ⟨rfl, rfl, rfl⟩ ⟨rfl, rfl, rfl⟩
  · exact ⟨_, _, rfl, rfl, rfl, rfl, ⟨Iff.rfl, Iff.rfl, Iff.rfl⟩, Iff.rfl, hsub.zero⟩

theorem words_as_bytes_carry :
    (∃ w b, addWord 0x01ff { Cpu.powerOn () with A := 0x7f, B := 0x01 } = .ok () w ∧
      byBytes add adc 0x01ff { Cpu.powerOn () with A := 0x7f, B := 0x01 } = .ok () b ∧
      SameWord w b) :=
  (words_as_bytes _ (by decide) (by decide) (by decide)).1

end Exec09
