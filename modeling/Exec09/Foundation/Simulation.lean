import Exec09.Foundation.Program

/-! # Simulation of one state program by another

A program over `σ` is compared with one over `τ` from related states. They
return the same value in related states, or stop for the same reason in related
states.
-/
namespace Exec09.Foundation

variable {ε σ τ α β : Type}

/-- The same value or the same reason, and related states. -/
def Corresponds (R : σ → τ → Prop) : EStateM.Result ε σ α → EStateM.Result ε τ α → Prop
  | .ok a s, .ok b t => a = b ∧ R s t
  | .error d s, .error e t => d = e ∧ R s t
  | _, _ => False

namespace Corresponds
variable {R : σ → τ → Prop} {r : EStateM.Result ε σ α} {b : α} {e : ε} {t : τ}

theorem of_ok (h : Corresponds R r (.ok b t)) : ∃ s, r = .ok b s ∧ R s t := by
  cases r with
  | ok a s =>
    obtain ⟨rfl, hst⟩ := h
    exact ⟨s, rfl, hst⟩
  | error d s => exact h.elim

theorem of_error (h : Corresponds R r (.error e t)) : ∃ s, r = .error e s ∧ R s t := by
  cases r with
  | ok a s => exact h.elim
  | error d s =>
    obtain ⟨rfl, hst⟩ := h
    exact ⟨s, rfl, hst⟩

theorem final {r' : EStateM.Result ε τ α} (h : Corresponds R r r') :
    R (finalState r) (finalState r') := by
  cases r' with
  | ok b t =>
    obtain ⟨s, rfl, hst⟩ := h.of_ok
    exact hst
  | error e t =>
    obtain ⟨s, rfl, hst⟩ := h.of_error
    exact hst

end Corresponds

/-- From related states `m` does what `n` does. -/
class Simulates (R : σ → τ → Prop) (m : EStateM ε σ α) (n : EStateM ε τ α) : Prop where
  run : ∀ s t, R s t → Corresponds R (m s) (n t)

namespace Simulates
variable {R : σ → τ → Prop} {m m' : EStateM ε σ α} {n n' : EStateM ε τ α}

theorem seq {f : α → EStateM ε σ β} {g : α → EStateM ε τ β} (hm : Simulates R m n)
    (hf : ∀ a, Simulates R (f a) (g a)) : Simulates R (m >>= f) (n >>= g) where
  run s t h := by
    have hmn := hm.run s t h
    cases ht : n t with
    | ok b t' =>
      rw [ht] at hmn
      obtain ⟨s', hs, hrel⟩ := hmn.of_ok
      rw [run_bind_ok hs, run_bind_ok ht]
      exact (hf b).run s' t' hrel
    | error e t' =>
      rw [ht] at hmn
      obtain ⟨s', hs, hrel⟩ := hmn.of_error
      rw [run_bind_error hs, run_bind_error ht]
      exact ⟨rfl, hrel⟩

instance bind {f : α → EStateM ε σ β} {g : α → EStateM ε τ β} [hm : Simulates R m n]
    [hf : ∀ a, Simulates R (f a) (g a)] : Simulates R (m >>= f) (n >>= g) := hm.seq hf

instance pure (a : α) : Simulates R (pure a : EStateM ε σ α) (pure a : EStateM ε τ α) :=
  ⟨fun _ _ h => ⟨rfl, h⟩⟩

instance map {f : α → β} [hm : Simulates R m n] : Simulates R (f <$> m) (f <$> n) :=
  hm.seq fun a => pure (f a)

theorem modify {g : σ → σ} {h : τ → τ} (hgh : ∀ s t, R s t → R (g s) (h t)) :
    Simulates R (modify g : EStateM ε σ PUnit) (modify h : EStateM ε τ PUnit) :=
  ⟨fun s t hst => ⟨rfl, hgh s t hst⟩⟩

instance stop (e : ε) : Simulates R (throw e : EStateM ε σ α) (throw e : EStateM ε τ α) :=
  ⟨fun _ _ h => ⟨rfl, h⟩⟩

instance ite {c : Prop} [Decidable c] [hm : Simulates R m n] [hn : Simulates R m' n'] :
    Simulates R (if c then m else m') (if c then n else n') := by
  split
  · exact hm
  · exact hn

end Simulates

/-- The steps of a run one by one. -/
instance runAll_simulates {ι : Type} {R : σ → τ → Prop} {f : ι → EStateM ε σ Unit}
    {g : ι → EStateM ε τ Unit} [h : ∀ e, Simulates R (f e) (g e)] (es : List ι) :
    Simulates R (runAll f es) (runAll g es) := by
  induction es with
  | nil => exact Simulates.pure ()
  | cons e es ih => exact (h e).seq fun _ => ih

end Exec09.Foundation
