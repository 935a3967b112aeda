import Exec09.Foundation.Program
import Mathlib.Algebra.BigOperators.Group.List.Basic
import Mathlib.Data.Int.Order.Basic
import Mathlib.Tactic

/-! # The cost of a program, and loops that count down

A clock is an integer of the state that programs take their cost from. The cost
of a program lies in an interval, and the intervals of its parts add up. A loop
that goes on while the clock is positive ends if each turn has a cost.
-/
namespace Exec09.Foundation

variable {ε σ α β : Type}

/-- Where `m` returns, the clock has gone down by `lo` at least and by `hi` at most. -/
class Costs (clock : σ → ℤ) (m : EStateM ε σ α) (lo hi : outParam ℤ) : Prop where
  costs : ∀ s a t, m s = .ok a t → lo ≤ clock s - clock t ∧ clock s - clock t ≤ hi

namespace Costs
variable {clock : σ → ℤ} {m n : EStateM ε σ α} {lo hi lo' hi' : ℤ}

theorem seq {f : α → EStateM ε σ β} (hm : Costs clock m lo hi) (hf : ∀ a, Costs clock (f a) lo' hi') :
    Costs clock (m >>= f) (lo + lo') (hi + hi') where
  costs s b u h := by
    obtain ⟨a, t, hfirst, hrest⟩ := of_run_bind_ok h
    have hone := hm.costs s a t hfirst
    have htwo := (hf a).costs t b u hrest
    omega

instance bind {f : α → EStateM ε σ β} [hm : Costs clock m lo hi] [hf : ∀ a, Costs clock (f a) lo' hi'] :
    Costs clock (m >>= f) (lo + lo') (hi + hi') := hm.seq hf

instance pure (a : α) : Costs clock (pure a : EStateM ε σ α) 0 0 where
  costs s b t h := by
    cases h
    omega

instance get : Costs clock (get : EStateM ε σ σ) 0 0 where
  costs s b t h := by
    cases h
    omega

/-- A part of the program that the clock has no part in. -/
theorem free (h : ∀ s a t, m s = .ok a t → clock t = clock s) : Costs clock m 0 0 where
  costs s a t hr := by
    have heq := h s a t hr
    omega

theorem modify {g : σ → σ} (h : ∀ s, clock (g s) = clock s) :
    Costs clock (modify g : EStateM ε σ PUnit) 0 0 where
  costs s a t hr := by
    cases hr
    have heq := h s
    omega

/-- A program that never returns costs whatever one likes. -/
theorem never (h : ∀ s a t, m s ≠ .ok a t) : Costs clock m lo hi where
  costs s a t hr := absurd hr (h s a t)

theorem weaken (h : Costs clock m lo hi) (hlo : lo' ≤ lo) (hhi : hi ≤ hi') :
    Costs clock m lo' hi' where
  costs s a t hr := by
    have hcosts := h.costs s a t hr
    omega

theorem congr (h : Costs clock m lo hi) (hlo : lo = lo') (hhi : hi = hi') : Costs clock m lo' hi' :=
  h.weaken hlo.ge hhi.le

instance ite {c : Prop} [Decidable c] [hm : Costs clock m lo hi] [hn : Costs clock n lo' hi'] :
    Costs clock (if c then m else n) (min lo lo') (max hi hi') := by
  split
  · exact hm.weaken (min_le_left _ _) (le_max_left _ _)
  · exact hn.weaken (min_le_right _ _) (le_max_right _ _)

end Costs

/-! ## Counting down -/

section Countdown
variable (clock : σ → ℤ)

/-- `do step; while (clock > 0)`, for `n` turns at most: has the loop come to its end? The turns
are numbered, since they need not be the same. -/
def countdown : (ℕ → EStateM ε σ Unit) → ℕ → EStateM ε σ Bool
  | _, 0 => return false
  | step, n + 1 => do
    step 0
    if 0 < clock (← get) then countdown (fun k => step (k + 1)) n else return true

/-- A whole loop from `s` to `u`, with the costs of its turns. -/
inductive Countdown : (ℕ → EStateM ε σ Unit) → σ → List ℤ → σ → Prop
  | last {step : ℕ → EStateM ε σ Unit} {s t : σ} : step 0 s = .ok () t → clock t ≤ 0 →
      Countdown step s [clock s - clock t] t
  | next {step : ℕ → EStateM ε σ Unit} {s t u : σ} {l : List ℤ} : step 0 s = .ok () t →
      0 < clock t → Countdown (fun k => step (k + 1)) t l u →
      Countdown step s ((clock s - clock t) :: l) u

variable {clock} {step : ℕ → EStateM ε σ Unit}

theorem Countdown.ends {s u : σ} {l : List ℤ} (h : Countdown clock step s l u) : clock u ≤ 0 := by
  induction h with
  | last _ hend => exact hend
  | next _ _ _ ih => exact ih

/-- The costs add up to what the clock has lost. -/
theorem Countdown.sum {s u : σ} {l : List ℤ} (h : Countdown clock step s l u) :
    l.sum = clock s - clock u := by
  induction h with
  | last _ _ => simp
  | next _ _ _ ih =>
    rw [List.sum_cons, ih]
    omega

variable {lo hi : ℤ}

theorem Countdown.each {s u : σ} {l : List ℤ} (hstep : ∀ k, Costs clock (step k) lo hi)
    (h : Countdown clock step s l u) : ∀ n ∈ l, lo ≤ n := by
  induction h with
  | @last step s t hrun _ => simpa using ((hstep 0).costs s () t hrun).1
  | @next step s t _ _ hrun _ _ ih =>
    have hfirst := ((hstep 0).costs s () t hrun).1
    exact List.forall_mem_cons.mpr ⟨hfirst, ih fun k => hstep (k + 1)⟩

/-- A turn starts while the clock is positive and costs something. -/
theorem Countdown.length_le {s u : σ} {l : List ℤ} (hstep : ∀ k, Costs clock (step k) lo hi)
    (hlo : 1 ≤ lo) (h : Countdown clock step s l u) (hs : 0 < clock s) :
    (l.length : ℤ) ≤ clock s := by
  induction h with
  | last _ _ =>
    rw [List.length_singleton]
    omega
  | @next step s t _ _ hrun hgoes _ ih =>
    have hcost := ((hstep 0).costs s () t hrun).1
    have hrest := ih (fun k => hstep (k + 1)) hgoes
    rw [List.length_cons]
    push_cast
    omega

/-- The last turn started with a positive clock. -/
theorem Countdown.overshoot {s u : σ} {l : List ℤ} (hstep : ∀ k, Costs clock (step k) lo hi)
    (h : Countdown clock step s l u) (hs : 0 < clock s) : 0 < clock u + hi := by
  induction h with
  | @last step s t hrun _ =>
    have hcost := ((hstep 0).costs s () t hrun).2
    omega
  | next _ hgoes _ ih => exact ih (fun k => hstep (k + 1)) hgoes

/-- With a cost of one in each turn, the loop ends within as many turns as the clock shows. -/
theorem countdown_ends (hstep : ∀ k, Costs clock (step k) lo hi) (hlo : 1 ≤ lo) {n : ℕ} {s t : σ}
    {b : Bool} (hs : 0 < clock s) (hn : clock s ≤ n) (h : countdown clock step n s = .ok b t) :
    b = true ∧ ∃ l, Countdown clock step s l t := by
  induction n generalizing s step with
  | zero => omega
  | succ n ih =>
    obtain ⟨⟨⟩, u, hrun, hrest⟩ := of_run_bind_ok h
    have hcost := ((hstep 0).costs s () u hrun).1
    rw [run_bind_ok run_get] at hrest
    split at hrest
    · rename_i hgoes
      obtain ⟨hb, l, hl⟩ := ih (fun k => hstep (k + 1)) hgoes (by push_cast at hn; omega) hrest
      exact ⟨hb, _, .next hrun hgoes hl⟩
    · rename_i hend
      cases hrest
      exact ⟨rfl, _, .last hrun (not_lt.mp hend)⟩

/-- An invariant of every turn is one of the loop. -/
theorem countdown_keeps {I : σ → Prop} (hstep : ∀ k, Keeps I (step k)) (n : ℕ) :
    Keeps I (countdown clock step n) := by
  induction n generalizing step with
  | zero => exact Keeps.pure false
  | succ n ih =>
    have hfirst := hstep 0
    have hrest := ih fun k => hstep (k + 1)
    unfold countdown
    infer_instance

end Countdown

end Exec09.Foundation
