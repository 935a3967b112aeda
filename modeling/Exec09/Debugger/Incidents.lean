import Exec09.Debugger.CommandStops
import Exec09.Debugger.ExpressionTree

/-! # What happens during an evaluation

An incident is something that the nodes of an expression may do. If every node
shows it, in the state or by the way it stops, then so does the evaluation. Two
incidents are divisions by zero and assignments beside an error.
-/
namespace Exec09.Debugger
open Foundation
variable {τ : Type}

/-- When a node does it, given the values of its parts and the state in which it acts. -/
structure Incident (τ : Type) where
  leaf : Leaf → Session τ → Prop
  unary : Unary → BitVec 64 → Session τ → Prop
  binary : Binary → BitVec 64 → BitVec 64 → Session τ → Prop

section Meets
variable [Target τ]

/-- The evaluation of a tree comes to a node that does it. -/
def Expr.Meets (E : Incident τ) : Expr → Session τ → Prop
  | leaf l, s => E.leaf l s
  | unary u part, s => part.Meets E s ∨ ∃ v t, part.run s = .ok v t ∧ E.unary u v t
  | binary b left right, s => left.Meets E s ∨ ∃ v t, left.run s = .ok v t ∧
      (right.Meets E t ∨ ∃ w u, right.run t = .ok w u ∧ E.binary b v w u)

/-- The final state satisfies `R`, or the program has stopped for a reason in `X`. -/
def Shows (R : Session τ → Prop) (X : Crash → Prop) {α : Type} :
    EStateM.Result Crash (Session τ) α → Prop
  | .ok _ t => R t
  | .error e t => X e ∨ R t

/-- A node shows the incident, and keeps what has been shown before. -/
structure Incident.Shown (E : Incident τ) (R : Session τ → Prop) (X : Crash → Prop) : Prop where
  leaf : ∀ l s, Shows R X (l.run s) ↔ R s ∨ E.leaf l s
  unary : ∀ u v s, Shows R X (u.apply v s) ↔ R s ∨ E.unary u v s
  binary : ∀ b v w s, Shows R X (b.apply v w s) ↔ R s ∨ E.binary b v w s

variable {E : Incident τ} {R : Session τ → Prop} {X : Crash → Prop}

omit [Target τ] in
theorem exists_ok {α : Type} {a : α} {s : Session τ} {P : α → Session τ → Prop} :
    (∃ b t, (.ok a s : EStateM.Result Crash (Session τ) α) = .ok b t ∧ P b t) ↔ P a s := by
  constructor
  · rintro ⟨b, t, heq, h⟩
    cases heq
    exact h
  · exact fun h => ⟨a, s, rfl, h⟩

omit [Target τ] in
theorem exists_error {α : Type} {e : Crash} {s : Session τ} {P : α → Session τ → Prop} :
    (∃ b t, (.error e s : EStateM.Result Crash (Session τ) α) = .ok b t ∧ P b t) ↔ False := by
  refine iff_false_intro ?_
  rintro ⟨b, t, heq, -⟩
  cases heq

/-- By induction on the tree: an evaluation shows what its nodes do. -/
theorem Expr.shows_iff (h : E.Shown R X) (x : Expr) (s : Session τ) :
    Shows R X (x.run s) ↔ R s ∨ x.Meets E s := by
  induction x generalizing s with
  | leaf l => exact h.leaf l s
  | unary u part ih =>
    rw [Expr.run, Expr.Meets, ← or_assoc, ← ih s]
    cases hrun : part.run s with
    | ok v t =>
      rw [run_bind_ok hrun, h.unary, exists_ok]
      exact Iff.rfl
    | error e t =>
      rw [run_bind_error hrun, exists_error, or_false]
  | binary b left right ihl ihr =>
    rw [Expr.run, Expr.Meets, ← or_assoc, ← ihl s]
    cases hrun : left.run s with
    | ok v t =>
      rw [run_bind_ok hrun, exists_ok]
      change _ ↔ R t ∨ _
      rw [← or_assoc, ← ihr t]
      cases hrun' : right.run t with
      | ok w u =>
        rw [run_bind_ok hrun', h.binary, exists_ok]
        exact Iff.rfl
      | error e u =>
        rw [run_bind_error hrun', exists_error, or_false]
    | error e t =>
      rw [run_bind_error hrun, exists_error, or_false]

/-- A program that runs a tree shows what its nodes do. -/
theorem Runs.shows_iff (h : E.Shown R X) {m : EvalM τ Evaluated} {x : Expr} (hm : Runs m x)
    (s : Session τ) : Shows R X (m s) ↔ R s ∨ x.Meets E s := by
  obtain ⟨left, hm⟩ := hm
  rw [hm, ← Expr.shows_iff h]
  cases hrun : x.run s with
  | ok v t =>
    rw [run_bind_ok hrun]
    exact Iff.rfl
  | error e t =>
    rw [run_bind_error hrun]
    exact Iff.rfl

/-- A text is evaluated as its tree is. -/
theorem eval_shows_iff (h : E.Shown R X) (text : Text) (s : Session τ) :
    Shows R X (eval text s) ↔ R s ∨ (exprOf text).Meets E s := (eval_runs text).shows_iff h s

end Meets

/-! ## Division by zero -/

section Division
variable [Target τ]

/-- A division with the divisor 0. -/
def zeroDivision : Incident τ where
  leaf _ _ := False
  unary _ _ _ := False
  binary b _ w _ := b = .div ∧ w = 0

/-- An evaluation does not divide by zero, and where a divisor is 0 it goes on with an error. -/
def DivisionSafe (text : Text) (s : Session τ) : Prop :=
  (∀ t, eval text s ≠ .error .divisionByZero t) ∧
    ((exprOf text).Meets zeroDivision s → ∃ r t, eval text s = .ok r t ∧ t.eflag ≠ 0)

/-- Every other reason. -/
abbrev Undivided {α : Type} (m : EvalM τ α) : Prop := StopsFor (fun e => e ≠ .divisionByZero) m

instance undivided_permits : Permits fun e => e ≠ .divisionByZero := ⟨fun _ h => by cases h⟩

omit [Target τ] in
theorem Undivided.not_shows {α : Type} {m : EvalM τ α} (h : Undivided m) (s : Session τ) :
    ¬Shows (fun _ => False) (· = .divisionByZero) (m s) := by
  cases hrun : m s with
  | ok a t => exact id
  | error e t => exact fun hshows => h.stops s e t hrun (hshows.elim id False.elim)

theorem zeroDivision_shown :
    (zeroDivision (τ := τ)).Shown (fun _ => False) (· = .divisionByZero) where
  leaf l s := iff_of_false (Undivided.not_shows inferInstance s) (by simp [zeroDivision])
  unary u v s := iff_of_false (Undivided.not_shows inferInstance s) (by simp [zeroDivision])
  binary b v w s := by
    by_cases hb : b = .div
    · subst hb
      rw [Binary.apply, divide]
      by_cases hw : w = 0
      · rw [if_pos hw]
        simp [Shows, zeroDivision, hw]
      · rw [if_neg hw]
        exact iff_of_false id fun h => h.elim id fun hzero => hw hzero.2
    · have happly : Undivided (b.apply (τ := τ) v w) := Binary.apply_stops hb v w
      exact iff_of_false (happly.not_shows s) (by simp [zeroDivision, hb])

/-- An evaluation is safe exactly if it does not come to a division whose divisor is 0. -/
theorem divisionSafe_iff (text : Text) (s : Session τ) :
    DivisionSafe text s ↔ ¬(exprOf text).Meets zeroDivision s := by
  have hshows := eval_shows_iff zeroDivision_shown text s
  rw [false_or] at hshows
  rw [DivisionSafe, ← hshows]
  cases hrun : eval text s with
  | ok r t => simp [Shows]
  | error e t => simp [Shows]

end Division

/-- The debugger before its first command, on an empty machine. -/
def blankSession : Session FlatTarget := ⟨⟨0, fun _ => 0⟩, 0, fun _ => 0, 0, 0⟩

/-- `print 1/0`. -/
theorem one_over_zero : ¬∀ (text : Text) (s : Session FlatTarget), DivisionSafe text s := by
  intro h
  have hstop : ∃ t, eval (Text.ofString "1/0") blankSession = .error .divisionByZero t := ⟨_, rfl⟩
  obtain ⟨t, ht⟩ := hstop
  exact (h _ _).1 t ht

end Exec09.Debugger
