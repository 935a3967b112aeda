import Mathlib.Logic.Basic

/-! # Loops that wait for replies

A loop asks its environment once in each pass and goes on with the reply. What
it has come to is read off a list of replies: it has left the loop, or it waits
for the next one. A property of all replies is thus one of every environment,
also of one that never lets the loop end.
-/
namespace Exec09.Foundation

/-- A loop over states `σ` with replies `ρ` and results `β`. -/
structure Dialogue (σ ρ β : Type) where
  /-- The result, where the condition of the loop fails. -/
  exit : σ → Option β
  /-- One pass: the next state, or the result with which the loop is left. -/
  pass : σ → ρ → σ ⊕ β

namespace Dialogue
variable {σ ρ β : Type} (d : Dialogue σ ρ β)

/-- The state in which the loop waits after the replies, or its result. -/
def run : List ρ → σ → σ ⊕ β
  | [], s =>
    match d.exit s with
    | some b => .inr b
    | none => .inl s
  | r :: rs, s =>
    match d.exit s with
    | some b => .inr b
    | none =>
      match d.pass s r with
      | .inl s' => run rs s'
      | .inr b => .inr b

variable {d} {s s' : σ} {r : ρ} {rs : List ρ} {b : β}

theorem run_exit (h : d.exit s = some b) (rs : List ρ) : d.run rs s = .inr b := by
  cases rs <;> rw [run, h]

theorem run_next (h : d.exit s = none) (hr : d.pass s r = .inl s') :
    d.run (r :: rs) s = d.run rs s' := by
  rw [run, h, hr]

theorem run_left (h : d.exit s = none) (hr : d.pass s r = .inr b) : d.run (r :: rs) s = .inr b := by
  rw [run, h, hr]

/-- An invariant of the passes holds while the loop waits, and a result comes of a state that
satisfies it. -/
theorem run_invariant {I : σ → Prop} {Q : β → Prop} (hexit : ∀ s b, I s → d.exit s = some b → Q b)
    (hpass : ∀ s r, I s → d.exit s = none → (d.pass s r).elim I Q) (rs : List ρ) (hs : I s) :
    (d.run rs s).elim I Q := by
  induction rs generalizing s with
  | nil =>
    cases h : d.exit s with
    | some b =>
      rw [run_exit h]
      exact hexit s b hs h
    | none =>
      rw [run, h]
      exact hs
  | cons r rs ih =>
    cases h : d.exit s with
    | some b =>
      rw [run_exit h]
      exact hexit s b hs h
    | none =>
      have hnext := hpass s r hs h
      cases hr : d.pass s r with
      | inl s' =>
        rw [run_next h hr]
        rw [hr] at hnext
        exact ih hnext
      | inr b =>
        rw [run_left h hr]
        rwa [hr] at hnext

end Dialogue

end Exec09.Foundation
