import Mathlib.Data.Nat.Bitwise
import Mathlib.Tactic

/-! # Natural numbers as fixed-width machine words

An unsigned machine word of width `w` is kept as a natural number. Only the
operations that can leave the range `[0, 2^w)` mention the width; masks and
bit tests are those of `Nat`.
-/
namespace Exec09.Foundation.Word

/-- The value an unsigned variable of width `w` keeps of `n`. -/
def trunc (w n : ℕ) : ℕ := n % 2 ^ w

/-- Unsigned subtraction, wrapping at width `w`. -/
def sub (w a b : ℕ) : ℕ := (a + (2 ^ w - b % 2 ^ w)) % 2 ^ w

/-- Bitwise complement at width `w`. -/
def compl (w a : ℕ) : ℕ := 2 ^ w - (a % 2 ^ w + 1)

/-- Reinterpret the low `n` bits as signed and widen them to `w` bits. -/
def signExtend (n w a : ℕ) : ℕ :=
  if a % 2 ^ n < 2 ^ (n - 1) then a % 2 ^ n else a % 2 ^ n + (2 ^ w - 2 ^ n)

theorem trunc_lt (w n : ℕ) : trunc w n < 2 ^ w := Nat.mod_lt _ (Nat.two_pow_pos w)

theorem trunc_of_lt {w n : ℕ} (h : n < 2 ^ w) : trunc w n = n := Nat.mod_eq_of_lt h

@[simp] theorem and_255 (n : ℕ) : n &&& 255 = n % 256 := Nat.and_two_pow_sub_one_eq_mod n 8

@[simp] theorem and_65535 (n : ℕ) : n &&& 65535 = n % 65536 :=
  Nat.and_two_pow_sub_one_eq_mod n 16

theorem and_two_pow_ne_zero (n k : ℕ) : n &&& 2 ^ k ≠ 0 ↔ n.testBit k = true := by
  rw [Nat.and_two_pow]
  cases n.testBit k <;> simp

theorem and_two_pow_eq_zero (n k : ℕ) : n &&& 2 ^ k = 0 ↔ n.testBit k = false := by
  rw [Nat.and_two_pow]
  cases n.testBit k <;> simp

theorem and_two_pow_ne_zero_iff (n k : ℕ) : n &&& 2 ^ k ≠ 0 ↔ 2 ^ k ≤ n % 2 ^ (k + 1) := by
  rw [and_two_pow_ne_zero, Nat.testBit_eq_decide_div_mod_eq, decide_eq_true_eq, Nat.mod_pow_succ]
  have hlow : n % 2 ^ k < 2 ^ k := Nat.mod_lt _ (Nat.two_pow_pos k)
  rcases Nat.mod_two_eq_zero_or_one (n / 2 ^ k) with h | h <;> rw [h] <;> omega

theorem xor_and_two_pow_ne_zero (x y k : ℕ) :
    (x ^^^ y) &&& 2 ^ k ≠ 0 ↔ ¬(x &&& 2 ^ k ≠ 0 ↔ y &&& 2 ^ k ≠ 0) := by
  rw [and_two_pow_ne_zero, and_two_pow_ne_zero, and_two_pow_ne_zero, Nat.testBit_xor]
  cases x.testBit k <;> cases y.testBit k <;> simp

theorem and_and_two_pow_ne_zero (x y k : ℕ) :
    (x &&& y) &&& 2 ^ k ≠ 0 ↔ x &&& 2 ^ k ≠ 0 ∧ y &&& 2 ^ k ≠ 0 := by
  rw [and_two_pow_ne_zero, and_two_pow_ne_zero, and_two_pow_ne_zero, Nat.testBit_and,
    Bool.and_eq_true]

theorem testBit_compl {w a i : ℕ} (h : i < w) : (compl w a).testBit i = !a.testBit i := by
  rw [compl, Nat.testBit_two_pow_sub_succ (Nat.mod_lt _ (Nat.two_pow_pos w))]
  simp [h, Nat.testBit_mod_two_pow]

end Exec09.Foundation.Word
