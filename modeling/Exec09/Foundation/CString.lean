import Mathlib.Data.List.Basic

/-! # Strings in memory

A C string is a list of bytes without a zero. In memory a zero ends it, so that
one place holds at most one string, and a comparison need not know its length.
-/
namespace Exec09.Foundation

structure CString where
  bytes : List (BitVec 8)
  noNul : 0 ∉ bytes
  deriving DecidableEq

namespace CString
variable {s t : CString} {mem : ℕ → BitVec 8} {p q : ℕ}

theorem ext_bytes (h : s.bytes = t.bytes) : s = t := by
  cases s
  cases t
  cases h
  rfl

def length (s : CString) : ℕ := s.bytes.length

/-- The byte with this index, the end being a zero. -/
def byte (s : CString) (i : ℕ) : BitVec 8 := s.bytes.getD i 0

/-- The string stands at this place. -/
def Holds (mem : ℕ → BitVec 8) (p : ℕ) (s : CString) : Prop := ∀ i ≤ s.length, mem (p + i) = s.byte i

/-- `strcpy`. -/
def copy (p : ℕ) (s : CString) (mem : ℕ → BitVec 8) : ℕ → BitVec 8 :=
  fun a => if p ≤ a ∧ a ≤ p + s.length then s.byte (a - p) else mem a

theorem copy_holds (p : ℕ) (s : CString) (mem : ℕ → BitVec 8) : Holds (copy p s mem) p s := by
  intro i hi
  have hin : p ≤ p + i ∧ p + i ≤ p + s.length := by omega
  rw [copy, if_pos hin, Nat.add_sub_cancel_left]

/-- A string elsewhere is not touched. -/
theorem copy_other (h : Holds mem q t) (hout : q + t.length < p ∨ p + s.length < q) :
    Holds (copy p s mem) q t := by
  intro i hi
  rw [copy, if_neg (by omega)]
  exact h i hi

/-- `strcmp` returns zero. -/
def equals : List (BitVec 8) → (ℕ → BitVec 8) → ℕ → Bool
  | [], mem, p => mem p == 0
  | c :: cs, mem, p => mem p == c && equals cs mem (p + 1)

theorem equals_of_suffix {cs : List (BitVec 8)} (hcs : 0 ∉ cs) {ds : List (BitVec 8)} (hds : 0 ∉ ds)
    (h : ∀ i ≤ ds.length, mem (p + i) = ds.getD i 0) : equals cs mem p = true ↔ cs = ds := by
  induction cs generalizing ds p with
  | nil =>
    have hfirst := h 0 (Nat.zero_le _)
    rw [Nat.add_zero] at hfirst
    rw [equals, hfirst]
    cases ds with
    | nil => simp
    | cons d ds =>
      have hd : d ≠ 0 := fun hd => hds (hd ▸ List.mem_cons_self)
      exact iff_of_false (by simpa using hd) (List.cons_ne_nil d ds).symm
  | cons c cs ih =>
    have hfirst := h 0 (Nat.zero_le _)
    rw [Nat.add_zero] at hfirst
    have hc : c ≠ 0 := fun hc => hcs (hc ▸ List.mem_cons_self)
    rw [equals, hfirst]
    cases ds with
    | nil =>
      have hne : (0 == c) = false := beq_false_of_ne hc.symm
      rw [List.getD_nil, hne, Bool.false_and]
      exact iff_of_false Bool.false_ne_true (List.cons_ne_nil c cs)
    | cons d ds =>
      have hrest : ∀ i ≤ ds.length, mem (p + 1 + i) = ds.getD i 0 := by
        intro i hi
        have hnext := h (i + 1) (by simpa using hi)
        rwa [show p + (i + 1) = p + 1 + i by omega, List.getD_cons_succ] at hnext
      have htail := ih (fun hz => hcs (List.mem_cons_of_mem c hz))
        (fun hz => hds (List.mem_cons_of_mem d hz)) hrest
      simp only [List.getD_cons_zero, Bool.and_eq_true, beq_iff_eq, htail, List.cons.injEq]
      exact and_congr_left fun _ => eq_comm

/-- The bytes from a place up to a zero, at most this many. -/
def scan (mem : ℕ → BitVec 8) : ℕ → ℕ → List (BitVec 8)
  | 0, _ => []
  | n + 1, p => if mem p = 0 then [] else mem p :: scan mem n (p + 1)

theorem scan_of_suffix {cs : List (BitVec 8)} (hcs : 0 ∉ cs) {n : ℕ} (hn : cs.length < n)
    (h : ∀ i ≤ cs.length, mem (p + i) = cs.getD i 0) : scan mem n p = cs := by
  induction cs generalizing n p with
  | nil =>
    obtain ⟨k, rfl⟩ := Nat.exists_eq_succ_of_ne_zero (Nat.ne_of_gt hn)
    have hend : mem p = 0 := h 0 (Nat.zero_le _)
    rw [scan, if_pos hend]
  | cons c cs ih =>
    obtain ⟨k, rfl⟩ := Nat.exists_eq_succ_of_ne_zero (Nat.ne_of_gt (Nat.zero_lt_of_lt hn))
    have hfirst : mem p = c := h 0 (Nat.zero_le _)
    have hc : c ≠ 0 := fun hc => hcs (hc ▸ List.mem_cons_self)
    rw [scan, hfirst, if_neg hc, ih (fun hz => hcs (List.mem_cons_of_mem c hz))
      (Nat.lt_of_succ_lt_succ hn)]
    intro i hi
    have hnext := h (i + 1) (Nat.succ_le_succ hi)
    rwa [show p + (i + 1) = p + 1 + i by omega, List.getD_cons_succ] at hnext

theorem scan_holds (h : Holds mem p t) {n : ℕ} (hn : t.length < n) : scan mem n p = t.bytes :=
  scan_of_suffix t.noNul hn h

theorem equals_iff (h : Holds mem p t) : equals s.bytes mem p = true ↔ s = t := by
  rw [equals_of_suffix s.noNul t.noNul h]
  exact ⟨ext_bytes, fun h => h ▸ rfl⟩

theorem Holds.unique (hs : Holds mem p s) (ht : Holds mem p t) : s = t :=
  (equals_iff ht).mp ((equals_iff hs).mpr rfl)

end CString

end Exec09.Foundation
