import Mathlib.Tactic

/-! # Stacks in a memory that wraps around

A stack grows downwards in a memory of `N` cells whose addresses wrap. `Holds`
relates the cells from the stack pointer upwards to a list with the top of the
stack first; only cells of the stack have to be known.
-/
namespace Exec09.Foundation.Stack
variable {V : Type} {N sp : ℕ} {m m' : ℕ → V} {l : List V} {v : V}

/-- The cells of `m` from `sp` upwards are the values `l`. -/
def Holds (N : ℕ) (m : ℕ → V) (sp : ℕ) (l : List V) : Prop :=
  ∀ i v, l[i]? = some v → m ((sp + i) % N) = v

theorem holds_nil : Holds N m sp [] := by
  intro i v h
  simp at h

theorem Holds.top (h : Holds N m sp (v :: l)) (hsp : sp < N) : m sp = v := by
  have h0 := h 0 v rfl
  rwa [Nat.add_zero, Nat.mod_eq_of_lt hsp] at h0

theorem Holds.pop (h : Holds N m sp (v :: l)) : Holds N m ((sp + 1) % N) l := by
  intro i w hi
  rw [Nat.mod_add_mod, Nat.add_assoc, Nat.add_comm 1]
  exact h (i + 1) w (by simpa using hi)

/-- The address below `sp`. -/
theorem below_add (hN : 0 < N) (sp i : ℕ) : ((sp + (N - 1)) % N + (i + 1)) % N = (sp + i) % N := by
  have hsum : sp + (N - 1) + (i + 1) = sp + i + N := by omega
  rw [Nat.mod_add_mod, hsum, Nat.add_mod_right]

/-- A push writes the cell below the stack and leaves the cells of the stack alone. -/
theorem Holds.push (h : Holds N m sp l) (hN : 0 < N) (hv : m' ((sp + (N - 1)) % N) = v)
    (hkeep : ∀ i < l.length, m' ((sp + i) % N) = m ((sp + i) % N)) :
    Holds N m' ((sp + (N - 1)) % N) (v :: l) := by
  intro i w hi
  cases i with
  | zero =>
    rw [Nat.add_zero, Nat.mod_mod, hv]
    simpa using hi
  | succ i =>
    rw [List.getElem?_cons_succ] at hi
    obtain ⟨hlt, -⟩ := List.getElem?_eq_some_iff.mp hi
    rw [below_add hN, hkeep i hlt, h i w hi]

theorem Holds.congr (h : Holds N m sp l)
    (hkeep : ∀ i < l.length, m' ((sp + i) % N) = m ((sp + i) % N)) : Holds N m' sp l := by
  intro i v hi
  obtain ⟨hlt, -⟩ := List.getElem?_eq_some_iff.mp hi
  rw [hkeep i hlt, h i v hi]

end Exec09.Foundation.Stack
