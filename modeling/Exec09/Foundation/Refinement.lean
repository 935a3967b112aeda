import Exec09.Foundation.Program

/-! # Refinement of a partial program

An abstract program over `τ` tells what a program over `σ` does wherever the
abstract one returns; where it stops, nothing is asked. What it returns is read
through a function, such as the number of a machine word.
-/
namespace Exec09.Foundation

variable {δ ε σ τ α α' β β' : Type}

/-- Where `n` returns, `m` returns the value of `φ` from a related state, in a related state. -/
class Refines (R : σ → τ → Prop) (φ : outParam (α' → α)) (m : EStateM ε σ α)
    (n : EStateM δ τ α') : Prop where
  run : ∀ s t, R s t → OnReturn n t fun b t' => ∃ s', m s = .ok (φ b) s' ∧ R s' t'

namespace Refines
variable {R : σ → τ → Prop} {φ : α' → α} {ψ : β' → β} {m m' : EStateM ε σ α}
  {n n' : EStateM δ τ α'}

theorem of_ok [h : Refines R φ m n] {s : σ} {t t' : τ} {b : α'} (hst : R s t)
    (hrun : n t = .ok b t') : ∃ s', m s = .ok (φ b) s' ∧ R s' t' :=
  (onReturn_ok hrun).mp (h.run s t hst)

theorem seq {f : α → EStateM ε σ β} {g : α' → EStateM δ τ β'} (hm : Refines R φ m n)
    (hf : ∀ b, Refines R ψ (f (φ b)) (g b)) : Refines R ψ (m >>= f) (n >>= g) where
  run s t h := by
    cases hn : n t with
    | ok b t' =>
      obtain ⟨s', hs, hrel⟩ := hm.of_ok h hn
      rw [OnReturn, run_bind_ok hn, run_bind_ok hs]
      exact (hf b).run s' t' hrel
    | error e t' => exact onReturn_error (run_bind_error hn)

instance bind {f : α → EStateM ε σ β} {g : α' → EStateM δ τ β'} [hm : Refines R φ m n]
    [hf : ∀ b, Refines R ψ (f (φ b)) (g b)] : Refines R ψ (m >>= f) (n >>= g) := hm.seq hf

theorem pure {a : α} {b : α'} (h : a = φ b) :
    Refines R φ (Pure.pure a : EStateM ε σ α) (Pure.pure b : EStateM δ τ α') :=
  ⟨fun s _ hst => ⟨s, by rw [h]; rfl, hst⟩⟩

theorem modify {g : σ → σ} {h : τ → τ} (hgh : ∀ s t, R s t → R (g s) (h t)) :
    Refines R id (modify g : EStateM ε σ PUnit) (modify h : EStateM δ τ PUnit) :=
  ⟨fun s t hst => ⟨g s, rfl, hgh s t hst⟩⟩

/-- A step of the program that the abstract one does not see. -/
theorem unseen {k : EStateM ε σ β} {f : β → EStateM ε σ α} {b : β}
    (hk : ∀ s t, R s t → ∃ s', k s = .ok b s' ∧ R s' t) (hf : Refines R φ (f b) n) :
    Refines R φ (k >>= f) n where
  run s t hst := by
    obtain ⟨s', hrun, hrel⟩ := hk s t hst
    rw [run_bind_ok hrun]
    exact hf.run s' t hrel

/-- Such a step at the end. -/
theorem trailing {k : α → EStateM ε σ β} {ψ : α' → β} (hm : Refines R φ m n)
    (hk : ∀ a s t, R s t → ∃ s', k (φ a) s = .ok (ψ a) s' ∧ R s' t) : Refines R ψ (m >>= k) n where
  run s t hst := by
    cases hn : n t with
    | ok b t' =>
      obtain ⟨s', hs, hrel⟩ := hm.of_ok hst hn
      rw [OnReturn, hn, run_bind_ok hs]
      exact hk b s' t' hrel
    | error e t' => exact onReturn_error hn

instance returning {a : β} [hm : Refines R φ m n] :
    Refines R (fun _ => a) (m >>= fun _ => Pure.pure a) n :=
  hm.trailing fun _ s _ h => ⟨s, rfl, h⟩

theorem throw {e : δ} : Refines R φ m (throw e : EStateM δ τ α') :=
  ⟨fun _ _ _ => trivial⟩

theorem ite {c d : Prop} [Decidable c] [Decidable d] (hcd : c ↔ d)
    (hm : d → Refines R φ m n) (hn : ¬d → Refines R φ m' n') :
    Refines R φ (if c then m else m') (if d then n else n') := by
  by_cases h : d
  · rw [if_pos h, if_pos (hcd.mpr h)]
    exact hm h
  · rw [if_neg h, if_neg fun hc => h (hcd.mp hc)]
    exact hn h

end Refines

end Exec09.Foundation
