import Mathlib.Tactic

/-! # Queues in a circular array

`Holds cap data rd q`: the `cap` cells of `data` hold the queue `q`, its head at
index `rd` and each further element one cell on, around the end of the array.
The other cells are unrestricted.
-/
namespace Exec09.Foundation.Ring

variable {α : Type} {cap rd : ℕ} {data : ℕ → α} {q : List α} {x : α}

structure Holds (cap : ℕ) (data : ℕ → α) (rd : ℕ) (q : List α) : Prop where
  length_le : q.length ≤ cap
  cell : ∀ i (h : i < q.length), data ((rd + i) % cap) = q[i]

theorem holds_nil : Holds cap data rd [] :=
  ⟨Nat.zero_le cap, fun i h => absurd h (Nat.not_lt_zero i)⟩

/-- Different places in the queue are different cells. -/
theorem index_ne {i j : ℕ} (hij : i < j) (hj : j < cap) : (rd + i) % cap ≠ (rd + j) % cap := by
  intro h
  have hmod : i ≡ j [MOD cap] := Nat.ModEq.add_left_cancel' rd h
  have hlt : i % cap = j % cap := hmod
  rw [Nat.mod_eq_of_lt (by omega), Nat.mod_eq_of_lt hj] at hlt
  omega

theorem Holds.push (h : Holds cap data rd q) (hroom : q.length < cap) (x : α) :
    Holds cap (Function.update data ((rd + q.length) % cap) x) rd (q ++ [x]) where
  length_le := by simpa using hroom
  cell := by
    intro i hi
    by_cases hlast : i = q.length
    · subst hlast
      simp
    · have hlt : i < q.length := by
        rw [List.length_append, List.length_singleton] at hi
        omega
      rw [Function.update_of_ne (index_ne hlt hroom), h.cell i hlt, List.getElem_append_left hlt]

theorem Holds.head (h : Holds cap data rd (x :: q)) (hrd : rd < cap) : data rd = x := by
  have hcell := h.cell 0 (by simp)
  rwa [Nat.add_zero, Nat.mod_eq_of_lt hrd] at hcell

theorem Holds.pop (h : Holds cap data rd (x :: q)) : Holds cap data ((rd + 1) % cap) q where
  length_le := by
    have hle := h.length_le
    rw [List.length_cons] at hle
    omega
  cell := by
    intro i hi
    have hcell := h.cell (i + 1) (by simpa using hi)
    rw [Nat.mod_add_mod, Nat.add_assoc, Nat.add_comm 1 i, hcell, List.getElem_cons_succ]

end Exec09.Foundation.Ring
