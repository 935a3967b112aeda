import Mathlib.Data.List.DropRight
import Mathlib.Tactic

/-! # The last entries of a log in a circular table

A table of `cap` cells gets the entries of a log one after the other, each at its
number modulo `cap`. So it holds the last `cap` of them, and a cell that no
entry has come to is as it was in the beginning.
-/
namespace Exec09.Foundation

variable {α : Type} {cap : ℕ} {init data : ℕ → α} {log : List α}

structure Window (cap : ℕ) (init data : ℕ → α) (log : List α) : Prop where
  recorded : ∀ i (h : i < log.length), log.length ≤ i + cap → data (i % cap) = log[i]
  untouched : ∀ j < cap, log.length ≤ j → data j = init j

namespace Window

theorem start (cap : ℕ) (init : ℕ → α) : Window cap init init [] where
  recorded i h := absurd h (Nat.not_lt_zero i)
  untouched _ _ _ := rfl

/-- The cell of the next entry is the one of the oldest entry, or free. -/
theorem record (h : Window cap init data log) (x : α) :
    Window cap init (Function.update data (log.length % cap) x) (log ++ [x]) where
  recorded := by
    intro i hi hrecent
    rw [List.length_append, List.length_singleton] at hi hrecent
    by_cases hlast : i = log.length
    · subst hlast
      simp
    · have hlt : i < log.length := by omega
      have hne : i % cap ≠ log.length % cap := by
        intro heq
        have hmod : i ≡ log.length [MOD cap] := heq
        have hdvd := (Nat.modEq_iff_dvd' hlt.le).mp hmod
        have hle := Nat.le_of_dvd (by omega) hdvd
        omega
      rw [Function.update_of_ne hne, h.recorded i hlt (by omega), List.getElem_append_left hlt]
  untouched := by
    intro j hj hfree
    rw [List.length_append, List.length_singleton] at hfree
    have hsmall : log.length % cap = log.length := Nat.mod_eq_of_lt (by omega)
    rw [hsmall, Function.update_of_ne (by omega)]
    exact h.untouched j hj (by omega)

/-- The next entry replaces the oldest one in a full table. -/
theorem replaced (h : Window cap init data log) (hcap : 0 < cap) (hfull : cap ≤ log.length) :
    log[log.length - cap]? = some (data (log.length % cap)) := by
  have hlt : log.length - cap < log.length := by omega
  have hcell := h.recorded (log.length - cap) hlt (by omega)
  rw [← Nat.add_mod_right, Nat.sub_add_cancel hfull] at hcell
  rw [hcell, List.getElem?_eq_getElem hlt]

theorem free (h : Window cap init data log) (hroom : log.length < cap) :
    data (log.length % cap) = init log.length := by
  rw [Nat.mod_eq_of_lt hroom]
  exact h.untouched _ hroom le_rfl

/-- The cells from that of entry `n` on hold the log from there to its end. -/
theorem read (h : Window cap init data log) {n : ℕ} (hn : log.length ≤ n + cap) :
    (List.range (log.length - n)).map (fun k => data ((n + k) % cap)) = log.drop n := by
  apply List.ext_getElem
  · simp
  · intro k hk hk'
    rw [List.length_map, List.length_range] at hk
    rw [List.getElem_map, List.getElem_range, List.getElem_drop]
    exact h.recorded (n + k) (by omega) (by omega)

end Window

/-- One more entry moves the oldest of the last `n + 1` behind them. -/
theorem rtake_rdrop_concat {n : ℕ} {c : α} (hc : log[log.length - (n + 1)]? = some c)
    (hfull : n + 1 ≤ log.length) (x : α) :
    c :: (log ++ [x]).rtake (n + 1) = log.rtake (n + 1) ++ [x] ∧
      (log ++ [x]).rdrop (n + 1) = log.rdrop (n + 1) ++ [c] := by
  obtain ⟨hlt, rfl⟩ := List.getElem?_eq_some_iff.mp hc
  have hnext : log.length - n = log.length - (n + 1) + 1 := by omega
  rw [List.rtake_concat_succ, List.rdrop_concat_succ, List.rtake, List.rtake, List.rdrop, List.rdrop,
    hnext, List.drop_eq_getElem_cons hlt, List.take_succ_eq_append_getElem hlt]
  exact ⟨rfl, rfl⟩

end Exec09.Foundation
