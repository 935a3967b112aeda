import Exec09.Foundation.Program

/-! # Two programs run side by side

A relation between the states of two programs is carried to a relation between
their results. Both return, or both stop for the same reason.
-/
namespace Exec09.Foundation

variable {ε σ τ α α' β β' : Type}

/-- Both results are returns related by `Q`, or both are stops for one reason. -/
def BothEnd (Q : α → β → σ → τ → Prop) : EStateM.Result ε σ α → EStateM.Result ε τ β → Prop
  | .ok a s, .ok b t => Q a b s t
  | .error d _, .error e _ => d = e
  | _, _ => False

/-- From `P`-related states the two programs end alike, with `Q` where they return. -/
def Paired (P : σ → τ → Prop) (m : EStateM ε σ α) (n : EStateM ε τ β)
    (Q : α → β → σ → τ → Prop) : Prop :=
  ∀ s t, P s t → BothEnd Q (m s) (n t)

namespace Paired
variable {P P' : σ → τ → Prop} {Q Q' : α → β → σ → τ → Prop} {R : α' → β' → σ → τ → Prop}
  {m : EStateM ε σ α} {n : EStateM ε τ β}

theorem bind {f : α → EStateM ε σ α'} {g : β → EStateM ε τ β'} (hm : Paired P m n Q)
    (hf : ∀ a b, Paired (Q a b) (f a) (g b) R) : Paired P (m >>= f) (n >>= g) R := by
  intro s t h
  have hend := hm s t h
  cases hs : m s <;> cases ht : n t <;> rw [hs, ht] at hend
  case ok.ok a s' b t' =>
    rw [run_bind_ok hs, run_bind_ok ht]
    exact hf a b s' t' hend
  case error.error =>
    rw [run_bind_error hs, run_bind_error ht]
    exact hend
  all_goals exact hend.elim

theorem pure (a : α) (b : β) (h : ∀ s t, P s t → Q a b s t) :
    Paired P (pure a : EStateM ε σ α) (pure b : EStateM ε τ β) Q :=
  fun s t hst => h s t hst

theorem modify {f : σ → σ} {g : τ → τ} {Q : PUnit → PUnit → σ → τ → Prop}
    (h : ∀ s t, P s t → Q ⟨⟩ ⟨⟩ (f s) (g t)) :
    Paired P (modify f : EStateM ε σ PUnit) (modify g : EStateM ε τ PUnit) Q :=
  fun s t hst => h s t hst

theorem throw (e : ε) : Paired P (throw e : EStateM ε σ α) (throw e : EStateM ε τ β) Q :=
  fun _ _ _ => rfl

/-- Each program goes on with the state it has read. -/
theorem get {f : σ → EStateM ε σ α} {g : τ → EStateM ε τ β}
    (h : ∀ s t, P s t → Paired P (f s) (g t) Q) : Paired P (get >>= f) (get >>= g) Q := by
  intro s t hst
  rw [run_bind_ok run_get, run_bind_ok run_get]
  exact h s t hst s t hst

theorem mono (h : Paired P m n Q) (hp : ∀ s t, P' s t → P s t)
    (hq : ∀ a b s t, Q a b s t → Q' a b s t) : Paired P' m n Q' := by
  intro s t hst
  have hend := h s t (hp s t hst)
  cases hs : m s <;> cases ht : n t <;> rw [hs, ht] at hend
  case ok.ok => exact hq _ _ _ _ hend
  case error.error => exact hend
  all_goals exact hend.elim

/-- The two programs take the same branch. -/
theorem ite {c d : Prop} [Decidable c] [Decidable d] {m' : EStateM ε σ α} {n' : EStateM ε τ β}
    (hcd : c ↔ d) (hthen : c → Paired P m n Q) (helse : ¬c → Paired P m' n' Q) :
    Paired P (if c then m else m') (if d then n else n') Q := by
  by_cases h : c
  · rw [if_pos h, if_pos (hcd.mp h)]
    exact hthen h
  · rw [if_neg h, if_neg (mt hcd.mpr h)]
    exact helse h

theorem of_ok {s s' : σ} {t : τ} {a : α} (h : Paired P m n Q) (hst : P s t)
    (hm : m s = .ok a s') : ∃ b t', n t = .ok b t' ∧ Q a b s' t' := by
  have hend := h s t hst
  rw [hm] at hend
  cases ht : n t with
  | ok b t' => exact ⟨b, t', rfl, by rwa [ht] at hend⟩
  | error e t' =>
    rw [ht] at hend
    exact hend.elim

/-- Runs of steps that keep a relation keep it. -/
theorem runAll {ι : Type} {step : ι → EStateM ε σ Unit} {step' : ι → EStateM ε τ Unit}
    (h : ∀ i, Paired P (step i) (step' i) fun _ _ => P) (es : List ι) :
    Paired P (runAll step es) (runAll step' es) fun _ _ => P := by
  induction es with
  | nil => exact pure _ _ fun _ _ hst => hst
  | cons e es ih => exact (h e).bind fun _ _ => ih

end Paired

end Exec09.Foundation
