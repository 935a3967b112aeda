import Mathlib.Data.Nat.Digits.Defs
import Mathlib.Tactic

/-! # Positional numbers and carry chains

Digits are listed from the least significant one. They are integers, so that the
columns of a subtraction are digits too, and a top digit of its own carries the sign.
-/
namespace Exec09.Foundation.Radix
variable {ι : Type} {b : ℤ}

/-- `d₀ + b d₁ + ⋯ + bⁿ z`: the digits `ds` below the top digit `z`. -/
def weigh (b : ℤ) : List ℤ → ℤ → ℤ
  | [], z => z
  | d :: ds, z => d + b * weigh b ds z

theorem weigh_append (b : ℤ) (ds es : List ℤ) (z : ℤ) :
    weigh b (ds ++ es) z = weigh b ds (weigh b es z) := by
  induction ds with
  | nil => rfl
  | cons d ds ih => simp only [List.cons_append, weigh, ih]

theorem weigh_map_add (b : ℤ) (l : List ι) (t u : ι → ℤ) (z w : ℤ) :
    weigh b (l.map fun x => t x + u x) (z + w) = weigh b (l.map t) z + weigh b (l.map u) w := by
  induction l with
  | nil => rfl
  | cons x l ih =>
    simp only [List.map_cons, weigh, ih]
    ring

theorem weigh_map_sub (b : ℤ) (l : List ι) (t u : ι → ℤ) (z w : ℤ) :
    weigh b (l.map fun x => t x - u x) (z - w) = weigh b (l.map t) z - weigh b (l.map u) w := by
  induction l with
  | nil => rfl
  | cons x l ih =>
    simp only [List.map_cons, weigh, ih]
    ring

/-- Without a top digit the weight is the value of the digits. -/
theorem weigh_ofDigits (b : ℕ) (l : List ι) (d : ι → ℕ) :
    weigh b (l.map fun x => (d x : ℤ)) 0 = (Nat.ofDigits b (l.map d) : ℕ) := by
  induction l with
  | nil => rfl
  | cons x l ih =>
    simp only [List.map_cons, weigh, ih, Nat.ofDigits_cons]
    push_cast
    rfl

theorem weigh_add (b : ℤ) (ds : List ℤ) (z w : ℤ) :
    weigh b ds (z + w) = weigh b ds z + b ^ ds.length * w := by
  induction ds with
  | nil => simp [weigh]
  | cons d ds ih =>
    simp only [weigh, ih, List.length_cons, pow_succ]
    ring

/-- `ds` are the `n` digits of `x` in base `b`. -/
structure Digits (b n : ℕ) (ds : List ℕ) (x : ℕ) : Prop where
  length_eq : ds.length = n
  lt : ∀ d ∈ ds, d < b
  value : Nat.ofDigits b ds = x

theorem Digits.value_lt {b n : ℕ} {ds : List ℕ} {x : ℕ} (h : Digits b n ds x) (hb : 1 < b) :
    x < b ^ n := by
  rw [← h.length_eq, ← h.value]
  exact Nat.ofDigits_lt_base_pow_length hb h.lt

/-! ## Bounds -/

theorem digit_add_mul_lt {d z h : ℤ} (hd : 0 ≤ d ∧ d < b) : d + b * z < b * h ↔ z < h := by
  have hb : 0 < b := hd.1.trans_lt hd.2
  constructor
  · intro hlt
    have hz : b * z < b * h := by omega
    exact lt_of_mul_lt_mul_left hz hb.le
  · intro hlt
    have hz : b * (z + 1) ≤ b * h := mul_le_mul_of_nonneg_left hlt hb.le
    rw [mul_add] at hz
    omega

theorem weigh_lt_iff {ds : List ℤ} (hds : ∀ d ∈ ds, 0 ≤ d ∧ d < b) (z h : ℤ) :
    weigh b ds z < b ^ ds.length * h ↔ z < h := by
  induction ds with
  | nil => simp [weigh]
  | cons d ds ih =>
    rw [List.forall_mem_cons] at hds
    rw [weigh, List.length_cons, pow_succ', mul_assoc, digit_add_mul_lt hds.1, ih hds.2]

theorem le_weigh_iff {ds : List ℤ} (hds : ∀ d ∈ ds, 0 ≤ d ∧ d < b) (z h : ℤ) :
    b ^ ds.length * h ≤ weigh b ds z ↔ h ≤ z := by
  rw [← not_lt, ← not_lt, weigh_lt_iff hds]

/-! ## Signed numbers -/

/-- The two's complement reading of `x < 2 h`. -/
def signed (h x : ℤ) : ℤ := if x < h then x else x - 2 * h

/-- `x` is in the range of the signed numbers of half range `h`. -/
def Fits (h x : ℤ) : Prop := -h ≤ x ∧ x < h

/-- The sign of a number is the sign of its top digit. -/
theorem signed_weigh {ds : List ℤ} (hds : ∀ d ∈ ds, 0 ≤ d ∧ d < b) (h t : ℤ) :
    signed (b ^ ds.length * h) (weigh b ds t) = weigh b ds (signed h t) := by
  by_cases ht : t < h
  · rw [signed, signed, if_pos ht, if_pos ((weigh_lt_iff hds t h).mpr ht)]
  · rw [signed, signed, if_neg ht, if_neg (mt (weigh_lt_iff hds t h).mp ht), sub_eq_add_neg t,
      weigh_add]
    ring

theorem fits_weigh_iff {ds : List ℤ} (hds : ∀ d ∈ ds, 0 ≤ d ∧ d < b) (h z : ℤ) :
    Fits (b ^ ds.length * h) (weigh b ds z) ↔ Fits h z := by
  rw [Fits, Fits, ← mul_neg, le_weigh_iff hds, weigh_lt_iff hds]

/-! ## Carry chains -/

/-- Column totals `ts` reduced to digits: `k` is carried in and the last index carried out. -/
inductive CarryChain (b : ℤ) : ℤ → List ℤ → List ℤ → ℤ → Prop
  | nil (k : ℤ) : CarryChain b k [] [] k
  | cons {k k' k'' t r : ℤ} {ts rs : List ℤ} (hr : 0 ≤ r ∧ r < b) (hstep : r + b * k' = t + k)
      (hrest : CarryChain b k' ts rs k'') : CarryChain b k (t :: ts) (r :: rs) k''

namespace CarryChain
variable {k k' : ℤ} {ts rs : List ℤ}

theorem length_eq (h : CarryChain b k ts rs k') : rs.length = ts.length := by
  induction h with
  | nil => rfl
  | cons _ _ _ ih => simp only [List.length_cons, ih]

theorem digits (h : CarryChain b k ts rs k') : ∀ r ∈ rs, 0 ≤ r ∧ r < b := by
  induction h with
  | nil => simp
  | cons hr _ _ ih => exact List.forall_mem_cons.mpr ⟨hr, ih⟩

/-- The digits and the carry out weigh what the columns and the carry in weigh. -/
theorem weigh_eq (h : CarryChain b k ts rs k') (z : ℤ) :
    weigh b ts z + k = weigh b rs (z + k') := by
  induction h with
  | nil => rfl
  | cons _ hstep _ ih =>
    rw [weigh, weigh, ← ih]
    linear_combination -hstep

theorem value_eq (h : CarryChain b k ts rs k') :
    weigh b rs 0 + b ^ rs.length * k' = weigh b ts 0 + k := by
  rw [h.weigh_eq, ← weigh_add]

/-- The signed total fits exactly if the signed top column with the carry into it does. -/
theorem fits_iff (h : CarryChain b k ts rs k') (half z : ℤ) :
    Fits (b ^ ts.length * half) (weigh b ts z + k) ↔ Fits half (z + k') := by
  rw [h.weigh_eq, ← h.length_eq, fits_weigh_iff h.digits]

end CarryChain

end Exec09.Foundation.Radix
