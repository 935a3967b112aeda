import Mathlib.Logic.Function.Basic

/-! # Memory behind registers that stores change

A store goes to the place that the registers select for its address, or to no
place at all, and it may change the registers. So whatever places the addresses
have later, a place holds what was stored there last.
-/
namespace Exec09.Foundation

/-- The registers after a store, and the place where a store puts its value. -/
structure Translation (ρ α ν π : Type) where
  control : α → ν → ρ → ρ
  place : ρ → α → Option π

namespace Translation
variable {ρ α ν π : Type} [DecidableEq π] (T : Translation ρ α ν π) {r₀ r : ρ} {m₀ m : π → ν}
  {l : List (α × ν)}

/-- The registers after some stores, latest first. -/
def registers (r₀ : ρ) : List (α × ν) → ρ
  | [] => r₀
  | (a, v) :: l => T.control a v (registers r₀ l)

/-- What was last stored at a place. -/
def lastAt (r₀ : ρ) (p : π) : List (α × ν) → Option ν
  | [] => none
  | (a, v) :: l => if T.place (T.registers r₀ l) a = some p then some v else lastAt r₀ p l

/-- The registers and the memory are as the stores have left them. -/
structure Holds (r₀ : ρ) (m₀ : π → ν) (l : List (α × ν)) (r : ρ) (m : π → ν) : Prop where
  registers : r = T.registers r₀ l
  memory : ∀ p, m p = (T.lastAt r₀ p l).getD (m₀ p)

variable {T}

theorem Holds.start (r₀ : ρ) (m₀ : π → ν) : T.Holds r₀ m₀ [] r₀ m₀ := ⟨rfl, fun _ => rfl⟩

/-- A store that does what the translation says. -/
theorem Holds.store (h : T.Holds r₀ m₀ l r m) {a : α} {v : ν} {r' : ρ} {m' : π → ν}
    (hr : r' = T.control a v r) (hm : ∀ p, m' p = if T.place r a = some p then v else m p) :
    T.Holds r₀ m₀ ((a, v) :: l) r' m' where
  registers := by rw [hr, h.registers, Translation.registers]
  memory := by
    intro p
    rw [hm, lastAt, ← h.registers]
    by_cases hp : T.place r a = some p
    · rw [if_pos hp, if_pos hp, Option.getD_some]
    · rw [if_neg hp, if_neg hp, h.memory]

/-- A store to registers only, or one that is not let through. -/
theorem Holds.control (h : T.Holds r₀ m₀ l r m) {a : α} {v : ν} {r' : ρ}
    (hr : r' = T.control a v r) (hnone : T.place r a = none) :
    T.Holds r₀ m₀ ((a, v) :: l) r' m :=
  h.store hr fun p => (if_neg (by simp [hnone])).symm

/-- A store to a place of the memory. -/
theorem Holds.update (h : T.Holds r₀ m₀ l r m) {a : α} {v : ν} {p : π}
    (hr : T.control a v r = r) (hsome : T.place r a = some p) :
    T.Holds r₀ m₀ ((a, v) :: l) r (Function.update m p v) := by
  refine h.store hr.symm fun q => ?_
  by_cases hq : q = p
  · rw [hq, Function.update_self, if_pos hsome]
  · rw [Function.update_of_ne hq, if_neg fun heq => hq (Option.some.inj (heq.symm.trans hsome))]

end Translation

end Exec09.Foundation
