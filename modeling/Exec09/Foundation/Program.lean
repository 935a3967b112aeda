import Mathlib.Logic.Basic

/-! # Reasoning rules for state programs that may stop early

A program of `EStateM ε σ α` maps a state to either a value and a new state or
a reason for stopping and the state it stopped in. Three judgments are used:
pre- and postconditions, preservation of an invariant, and lockstep execution
of one program from two related states. Each comes with one rule for every
program constructor, so that a judgment about a program follows its syntax.
-/
namespace Exec09.Foundation

variable {ε σ α β : Type}

section Run
variable {m : EStateM ε σ α} {f : α → EStateM ε σ β} {s s' : σ} {a : α} {e : ε}

@[simp] theorem run_pure : (pure a : EStateM ε σ α) s = .ok a s := rfl

@[simp] theorem run_get : (get : EStateM ε σ σ) s = .ok s s := rfl

@[simp] theorem run_modify (g : σ → σ) : (modify g : EStateM ε σ PUnit) s = .ok ⟨⟩ (g s) := rfl

@[simp] theorem run_throw : (throw e : EStateM ε σ α) s = .error e s := rfl

theorem run_bind_ok (h : m s = .ok a s') : (m >>= f) s = f a s' := by
  change EStateM.bind m f s = _
  rw [EStateM.bind, h]

theorem run_bind_error (h : m s = .error e s') : (m >>= f) s = .error e s' := by
  change EStateM.bind m f s = _
  rw [EStateM.bind, h]

/-- A program that returned got through its first part. -/
theorem of_run_bind_ok {b : β} (h : (m >>= f) s = .ok b s') :
    ∃ a t, m s = .ok a t ∧ f a t = .ok b s' := by
  cases hm : m s with
  | ok a t => exact ⟨a, t, rfl, by rwa [run_bind_ok hm] at h⟩
  | error e t =>
    rw [run_bind_error hm] at h
    cases h

/-- If `m` returns from `s`, what it returns satisfies `Q`. -/
def OnReturn (m : EStateM ε σ α) (s : σ) (Q : α → σ → Prop) : Prop :=
  match m s with
  | .ok a s' => Q a s'
  | .error _ _ => True

theorem onReturn_ok {Q : α → σ → Prop} (h : m s = .ok a s') : OnReturn m s Q ↔ Q a s' := by
  rw [OnReturn, h]

theorem onReturn_error {Q : α → σ → Prop} (h : m s = .error e s') : OnReturn m s Q := by
  rw [OnReturn, h]
  trivial

instance {Q : α → σ → Prop} [∀ a s, Decidable (Q a s)] : Decidable (OnReturn m s Q) :=
  match h : m s with
  | .ok _ _ => decidable_of_iff _ (onReturn_ok h).symm
  | .error _ _ => isTrue (onReturn_error h)

end Run

/-- The state in which a program ends, whether it returned or stopped. -/
def finalState : EStateM.Result ε σ α → σ
  | .ok _ s => s
  | .error _ s => s

def returned : EStateM.Result ε σ α → Bool
  | .ok _ _ => true
  | .error _ _ => false

theorem eq_ok_finalState {r : EStateM.Result ε σ Unit} (h : returned r = true) :
    r = .ok () (finalState r) := by
  cases r with
  | ok a s => rfl
  | error e s => cases h

theorem exists_ok_finalState {r : EStateM.Result ε σ α} (h : returned r = true) :
    ∃ a, r = .ok a (finalState r) := by
  cases r with
  | ok a s => exact ⟨a, rfl⟩
  | error e s => cases h

/-- From a state satisfying `P`, a return satisfies `Q` and a stop satisfies `E`. -/
def Triple (P : σ → Prop) (m : EStateM ε σ α) (Q : α → σ → Prop) (E : σ → Prop) : Prop :=
  ∀ s, P s → match m s with
    | .ok a s' => Q a s'
    | .error _ s' => E s'

namespace Triple
variable {P P' : σ → Prop} {Q Q' : α → σ → Prop} {R : β → σ → Prop} {E E' : σ → Prop}
  {m : EStateM ε σ α} {f : α → EStateM ε σ β}

theorem bind (hm : Triple P m Q E) (hf : ∀ a, Triple (Q a) (f a) R E) :
    Triple P (m >>= f) R E := by
  intro s hs
  have h := hm s hs
  cases hr : m s with
  | ok a s' =>
    rw [hr] at h
    rw [run_bind_ok hr]
    exact hf a s' h
  | error e s' =>
    rw [hr] at h
    rw [run_bind_error hr]
    exact h

theorem pure (a : α) (h : ∀ s, P s → Q a s) : Triple P (pure a : EStateM ε σ α) Q E :=
  fun s hs => h s hs

theorem get {Q : σ → σ → Prop} (h : ∀ s, P s → Q s s) :
    Triple P (get : EStateM ε σ σ) Q E :=
  fun s hs => h s hs

theorem modify {Q : PUnit → σ → Prop} {g : σ → σ} (h : ∀ s, P s → Q ⟨⟩ (g s)) :
    Triple P (modify g : EStateM ε σ PUnit) Q E :=
  fun s hs => h s hs

theorem throw {e : ε} (h : ∀ s, P s → E s) : Triple P (throw e : EStateM ε σ α) Q E :=
  fun s hs => h s hs

theorem mono (h : Triple P m Q E) (hp : ∀ s, P' s → P s) (hq : ∀ a s, Q a s → Q' a s)
    (he : ∀ s, E s → E' s) : Triple P' m Q' E' := by
  intro s hs
  have h' := h s (hp s hs)
  cases hr : m s with
  | ok a s' => rw [hr] at h'; exact hq a s' h'
  | error e s' => rw [hr] at h'; exact he s' h'

/-- Go on with the one value that `m` can return. -/
theorem value {r : α} {S : σ → Prop} (hm : Triple P m (fun a s => a = r ∧ S s) E)
    (hf : Triple S (f r) R E) : Triple P (m >>= f) R E := by
  apply hm.bind
  rintro a s ⟨rfl, hs⟩
  exact hf s hs

theorem and (h : Triple P m Q E) (h' : Triple P' m Q' E') :
    Triple (fun s => P s ∧ P' s) m (fun a s => Q a s ∧ Q' a s) fun s => E s ∧ E' s := by
  rintro s ⟨hs, hs'⟩
  have hq := h s hs
  have hq' := h' s hs'
  cases hr : m s <;> rw [hr] at hq hq' <;> exact ⟨hq, hq'⟩

/-- What is known of the return of `m` holds after it. -/
theorem onReturn (h : Triple P m Q E) :
    Triple (fun s => P s ∧ OnReturn m s Q') m (fun a s => Q a s ∧ Q' a s) E := by
  rintro s ⟨hs, hret⟩
  have hq := h s hs
  cases hr : m s with
  | ok a s' =>
    rw [hr] at hq
    exact ⟨hq, (onReturn_ok hr).mp hret⟩
  | error e s' =>
    rw [hr] at hq
    exact hq

theorem of_ok {s s' : σ} {a : α} (h : Triple P m Q E) (hs : P s) (hr : m s = .ok a s') : Q a s' := by
  have h' := h s hs
  rwa [hr] at h'

/-- A program that never stops returns. -/
theorem total {s : σ} (h : Triple P m Q fun _ => False) (hs : P s) :
    ∃ a s', m s = .ok a s' ∧ Q a s' := by
  have h' := h s hs
  cases hr : m s with
  | ok a s' => exact ⟨a, s', rfl, by rwa [hr] at h'⟩
  | error e s' => rw [hr] at h'; exact h'.elim

theorem exists_pre {ι : Type} {P : ι → σ → Prop} (h : ∀ i, Triple (P i) m Q E) :
    Triple (fun s => ∃ i, P i s) m Q E :=
  fun s ⟨i, hi⟩ => h i s hi

theorem and_pre {p : Prop} (h : p → Triple P m Q E) : Triple (fun s => p ∧ P s) m Q E :=
  fun s ⟨hp, hs⟩ => h hp s hs

/-- Nothing is claimed of where the program ends. -/
theorem trivial : Triple P m (fun _ _ => True) (fun _ => True) := by
  intro s _
  cases m s <;> exact True.intro

theorem ite {c : Prop} [Decidable c] {n : EStateM ε σ α}
    (hm : c → Triple P m Q E) (hn : ¬c → Triple P n Q E) : Triple P (if c then m else n) Q E := by
  by_cases h : c
  · simpa only [if_pos h] using hm h
  · simpa only [if_neg h] using hn h

/-- One condition wherever the program ends. -/
theorem iff_final {I : σ → Prop} :
    Triple P m (fun _ => I) I ↔ ∀ s, P s → I (finalState (m s)) := by
  constructor
  · intro h s hs
    have h' := h s hs
    cases hr : m s <;> rw [hr] at h' <;> exact h'
  · intro h s hs
    have h' := h s hs
    cases hr : m s <;> rw [hr] at h' <;> exact h'

end Triple

/-- `m` preserves `I`, whether it returns or stops. Instances follow the program
syntax, so preservation by a composite program is found by instance search. -/
class Keeps (I : σ → Prop) (m : EStateM ε σ α) : Prop where
  keeps : ∀ s, I s → I (finalState (m s))

namespace Keeps
variable {I : σ → Prop} {m n : EStateM ε σ α}

theorem iff_triple : Keeps I m ↔ Triple I m (fun _ => I) I :=
  ⟨fun h => Triple.iff_final.mpr h.keeps, fun h => ⟨Triple.iff_final.mp h⟩⟩

theorem rule [h : Keeps I m] : Triple I m (fun _ => I) I := iff_triple.mp h

theorem triple [h : Keeps I m] : Triple I m (fun _ => I) (fun _ => True) :=
  (iff_triple.mp h).mono (fun _ hs => hs) (fun _ _ hs => hs) fun _ _ => True.intro

theorem modify {g : σ → σ} (h : ∀ s, I s → I (g s)) : Keeps I (modify g : EStateM ε σ PUnit) :=
  ⟨h⟩

theorem seq {f : α → EStateM ε σ β} (hm : Keeps I m) (hf : ∀ a, Keeps I (f a)) :
    Keeps I (m >>= f) :=
  iff_triple.mpr ((iff_triple.mp hm).bind fun a => iff_triple.mp (hf a))

instance bind {f : α → EStateM ε σ β} [hm : Keeps I m] [hf : ∀ a, Keeps I (f a)] :
    Keeps I (m >>= f) := hm.seq hf

instance pure (a : α) : Keeps I (pure a : EStateM ε σ α) := ⟨fun _ hs => hs⟩

instance map {f : α → β} [hm : Keeps I m] : Keeps I (f <$> m) :=
  hm.seq fun a => pure (f a)

instance get : Keeps I (get : EStateM ε σ σ) := ⟨fun _ hs => hs⟩

instance throw (e : ε) : Keeps I (throw e : EStateM ε σ α) := ⟨fun _ hs => hs⟩

instance ite {c : Prop} [Decidable c] [hm : Keeps I m] [hn : Keeps I n] :
    Keeps I (if c then m else n) := by
  split
  · exact hm
  · exact hn

end Keeps

/-- What comes after `m` leaves `f` alone. -/
theorem finalState_bind {γ : Type} {f : σ → γ} {m : EStateM ε σ α} {k : α → EStateM ε σ β}
    (hk : ∀ c a, Keeps (fun s => f s = c) (k a)) (s : σ) :
    f (finalState ((m >>= k) s)) = f (finalState (m s)) := by
  cases hr : m s with
  | ok a t =>
    rw [run_bind_ok hr]
    exact (hk (f t) a).keeps t rfl
  | error e t => rw [run_bind_error hr]; rfl

/-- `m` preserves `I` and returns a value satisfying `V`. In `m >>= f` the program `f a`
may then use `V a`; for `m = get` this is the invariant of the state read. -/
class Gives (I : σ → Prop) (m : EStateM ε σ α) (V : outParam (α → Prop)) : Prop where
  gives : Triple I m (fun a s => V a ∧ I s) I

namespace Gives
variable {I : σ → Prop} {m : EStateM ε σ α} {V : α → Prop}

instance get : Gives I (get : EStateM ε σ σ) I := ⟨Triple.get fun _ hs => ⟨hs, hs⟩⟩

/-- The value is returned after a further program has run. -/
theorem after {k : α → EStateM ε σ PUnit} (hm : Gives I m V) (hk : ∀ a, Keeps I (k a)) :
    Gives I (do let a ← m; k a; return a) V where
  gives := by
    refine hm.gives.bind fun a s hs => ?_
    have h := Keeps.iff_triple.mp (hk a) s hs.2
    cases hr : k a s with
    | ok u s' =>
      rw [hr] at h
      rw [run_bind_ok hr]
      exact ⟨hs.1, h⟩
    | error e s' =>
      rw [hr] at h
      rw [run_bind_error hr]
      exact h

theorem seq {f : α → EStateM ε σ β} (hm : Gives I m V) (hf : ∀ a : { a // V a }, Keeps I (f a.1)) :
    Keeps I (m >>= f) :=
  Keeps.iff_triple.mpr (hm.gives.bind fun a s hs => Keeps.iff_triple.mp (hf ⟨a, hs.1⟩) s hs.2)

instance bind {f : α → EStateM ε σ β} [hm : Gives I m V]
    [hf : ∀ a : { a // V a }, Keeps I (f a.1)] : Keeps I (m >>= f) := hm.seq hf

end Gives

/-- If `m` stops, then for a reason satisfying `X`. -/
class StopsFor (X : ε → Prop) (m : EStateM ε σ α) : Prop where
  stops : ∀ s e t, m s = .error e t → X e

namespace StopsFor
variable {X : ε → Prop} {m n : EStateM ε σ α}

theorem throw {e : ε} (h : X e) : StopsFor X (throw e : EStateM ε σ α) where
  stops := by
    intro s e' t he
    cases he
    exact h

theorem seq {f : α → EStateM ε σ β} (hm : StopsFor X m) (hf : ∀ a, StopsFor X (f a)) :
    StopsFor X (m >>= f) where
  stops := by
    intro s e t h
    cases hr : m s with
    | ok a u => exact (hf a).stops u e t (by rwa [run_bind_ok hr] at h)
    | error e' u =>
      rw [run_bind_error hr] at h
      cases h
      exact hm.stops s e t hr

instance bind {f : α → EStateM ε σ β} [hm : StopsFor X m] [hf : ∀ a, StopsFor X (f a)] :
    StopsFor X (m >>= f) := hm.seq hf

instance pure (a : α) : StopsFor X (pure a : EStateM ε σ α) := ⟨fun _ _ _ h => by cases h⟩

instance map {f : α → β} [hm : StopsFor X m] : StopsFor X (f <$> m) :=
  inferInstanceAs (StopsFor X (m >>= fun a => Pure.pure (f a)))

instance get : StopsFor X (get : EStateM ε σ σ) := ⟨fun _ _ _ h => by cases h⟩

instance modify (g : σ → σ) : StopsFor X (modify g : EStateM ε σ PUnit) := ⟨fun _ _ _ h => by cases h⟩

instance ite {c : Prop} [Decidable c] [hm : StopsFor X m] [hn : StopsFor X n] :
    StopsFor X (if c then m else n) := by
  split
  · exact hm
  · exact hn

/-- A program that has no reason to stop returns. -/
theorem total (h : StopsFor (fun _ => False) m) (s : σ) : ∃ a t, m s = .ok a t := by
  cases hr : m s with
  | ok a t => exact ⟨a, t, rfl⟩
  | error e t => exact (h.stops s e t hr).elim

end StopsFor

/-! ## Fuel -/

/-- `n` does what `m` does, unless `m` stops for the reason `e`. -/
class Refuels (e : ε) (m n : EStateM ε σ α) : Prop where
  run : ∀ s, (∃ t, m s = .error e t) ∨ n s = m s

namespace Refuels
variable {e : ε} {m n : EStateM ε σ α}

theorem eq (h : Refuels e m n) {s : σ} (hs : ∀ t, m s ≠ .error e t) : n s = m s :=
  (h.run s).resolve_left fun ⟨t, ht⟩ => hs t ht

instance same : Refuels e m m := ⟨fun _ => .inr rfl⟩

theorem throw : Refuels e (throw e) m := ⟨fun s => .inl ⟨s, rfl⟩⟩

theorem seq {f g : α → EStateM ε σ β} (hm : Refuels e m n) (hf : ∀ a, Refuels e (f a) (g a)) :
    Refuels e (m >>= f) (n >>= g) where
  run s := by
    rcases hm.run s with ⟨t, ht⟩ | hsame
    · exact .inl ⟨t, run_bind_error ht⟩
    · cases hr : m s with
      | error d t => exact .inr (by rw [run_bind_error hr, run_bind_error (hsame.trans hr)])
      | ok a t =>
        rw [run_bind_ok hr, run_bind_ok (hsame.trans hr)]
        exact (hf a).run t

instance bind {f g : α → EStateM ε σ β} [hm : Refuels e m n] [hf : ∀ a, Refuels e (f a) (g a)] :
    Refuels e (m >>= f) (n >>= g) := hm.seq hf

instance ite {c : Prop} [Decidable c] {m' n' : EStateM ε σ α} [hm : Refuels e m n]
    [hn : Refuels e m' n'] : Refuels e (if c then m else m') (if c then n else n') := by
  split
  · exact hm
  · exact hn

end Refuels

/-! ## Two runs of one program -/

/-- Both return the same value in `R`-related states, or both stop for the same reason in
`E`-related states. -/
def SameOutcome (R E : σ → σ → Prop) : EStateM.Result ε σ α → EStateM.Result ε σ α → Prop
  | .ok a s, .ok b t => a = b ∧ R s t
  | .error d s, .error e t => d = e ∧ E s t
  | _, _ => False

theorem SameOutcome.mono {R E R' E' : σ → σ → Prop} {x y : EStateM.Result ε σ α}
    (h : SameOutcome R E x y) (hR : ∀ s t, R s t → R' s t) (hE : ∀ s t, E s t → E' s t) :
    SameOutcome R' E' x y := by
  cases x <;> cases y
  case ok.ok => exact ⟨h.1, hR _ _ h.2⟩
  case error.error => exact ⟨h.1, hE _ _ h.2⟩
  all_goals exact h.elim

/-- What is known of the two final states besides. -/
theorem SameOutcome.final {R E : σ → σ → Prop} {x y : EStateM.Result ε σ α} {I J : σ → Prop}
    (h : SameOutcome R E x y) (hx : I (finalState x)) (hy : J (finalState y)) :
    SameOutcome (fun s t => R s t ∧ I s ∧ J t) (fun s t => E s t ∧ I s ∧ J t) x y := by
  cases x <;> cases y
  case ok.ok => exact ⟨h.1, h.2, hx, hy⟩
  case error.error => exact ⟨h.1, h.2, hx, hy⟩
  all_goals exact h.elim

/-- Run from `R`-related states, `m` has the same outcome, with `R'` where it returns. -/
class Lockstep (E R R' : σ → σ → Prop) (m : EStateM ε σ α) : Prop where
  run : ∀ s t, R s t → SameOutcome R' E (m s) (m t)

namespace Lockstep
variable {E R R' R'' : σ → σ → Prop} {m n : EStateM ε σ α}

theorem seq {k : α → EStateM ε σ β} (hm : Lockstep E R R' m) (hk : ∀ a, Lockstep E R' R'' (k a)) :
    Lockstep E R R'' (m >>= k) where
  run s t h := by
    have hm := hm.run s t h
    cases hs : m s <;> cases ht : m t <;> rw [hs, ht] at hm
    case ok.ok a s' b t' =>
      rw [run_bind_ok hs, run_bind_ok ht, ← hm.1]
      exact (hk a).run s' t' hm.2
    case error.error =>
      rw [run_bind_error hs, run_bind_error ht]
      exact hm
    all_goals exact hm.elim

instance bind {k : α → EStateM ε σ β} [hm : Lockstep E R R m] [hk : ∀ a, Lockstep E R R' (k a)] :
    Lockstep E R R' (m >>= k) := hm.seq hk

instance pure (a : α) : Lockstep E R R (pure a : EStateM ε σ α) := ⟨fun _ _ h => ⟨rfl, h⟩⟩

instance map {f : α → β} [hm : Lockstep E R R m] : Lockstep E R R (f <$> m) :=
  hm.seq fun a => pure (f a)

theorem modify {g : σ → σ} (h : ∀ s t, R s t → R' (g s) (g t)) :
    Lockstep E R R' (modify g : EStateM ε σ PUnit) :=
  ⟨fun s t hst => ⟨rfl, h s t hst⟩⟩

instance ite {c : Prop} [Decidable c] [hm : Lockstep E R R' m] [hn : Lockstep E R R' n] :
    Lockstep E R R' (if c then m else n) := by
  split
  · exact hm
  · exact hn

end Lockstep

/-! ## Runs of labelled steps -/

section Runs
variable {ι : Type} (step : ι → EStateM ε σ Unit)

/-- Perform the steps of a list in order. -/
def runAll : List ι → EStateM ε σ Unit
  | [] => pure ()
  | e :: es => do
    step e
    runAll es

/-- Every step of the run starts in a state that meets the condition of its label. -/
def Along (ok : ι → σ → Prop) : List ι → σ → Prop
  | [], _ => True
  | e :: es, s => ok e s ∧ OnReturn (step e) s fun _ s' => Along ok es s'

instance Along.decidable (ok : ι → σ → Prop) [∀ e s, Decidable (ok e s)] :
    ∀ (es : List ι) (s : σ), Decidable (Along step ok es s)
  | [], _ => isTrue trivial
  | _ :: es, _ =>
    have := Along.decidable ok es
    inferInstanceAs (Decidable (_ ∧ _))

theorem runAll_single (e : ι) : runAll step [e] = step e := bind_pure_unit (x := step e)

theorem finalState_runAll_single (e : ι) (s : σ) :
    finalState (runAll step [e] s) = finalState (step e s) := by
  rw [runAll_single]

theorem runAll_append (es fs : List ι) :
    runAll step (es ++ fs) = (do runAll step es; runAll step fs) := by
  induction es with
  | nil => exact (pure_bind _ _).symm
  | cons e es ih =>
    change (do step e; runAll step (es ++ fs)) = (do (do step e; runAll step es); runAll step fs)
    rw [ih, bind_assoc]

variable {step} {ok : ι → σ → Prop} {I E : σ → Prop}

/-- An invariant of every step holds at the end of every run. -/
theorem runAll_keeps (hstep : ∀ e, Triple I (step e) (fun _ => I) E) (es : List ι) :
    Triple I (runAll step es) (fun _ => I) E := by
  induction es with
  | nil => exact Triple.pure _ fun s hs => hs
  | cons e es ih => exact (hstep e).bind fun _ => ih

/-- An invariant of every conditioned step holds at the end of every conditioned run. -/
theorem runAll_invariant
    (hstep : ∀ e, Triple (fun s => I s ∧ ok e s) (step e) (fun _ => I) E)
    (es : List ι) : Triple (fun s => I s ∧ Along step ok es s) (runAll step es) (fun _ => I) E := by
  induction es with
  | nil => exact Triple.pure _ fun s hs => hs.1
  | cons e es ih =>
    rintro s ⟨hs, hok, hrest⟩
    have h := hstep e s ⟨hs, hok⟩
    rw [runAll]
    cases hr : step e s with
    | ok a s' =>
      rw [hr] at h
      rw [run_bind_ok hr]
      exact ih s' ⟨h, (onReturn_ok hr).mp hrest⟩
    | error e' s' =>
      rw [hr] at h
      rw [run_bind_error hr]
      exact h

theorem along_trivial (es : List ι) (s : σ) : Along step (fun _ _ => True) es s := by
  induction es generalizing s with
  | nil => trivial
  | cons e es ih =>
    refine ⟨trivial, ?_⟩
    cases hr : step e s with
    | ok a s' => exact (onReturn_ok hr).mpr (ih s')
    | error e' s' => exact onReturn_error hr

theorem Along.initial {es es' : List ι} {s : σ} (h : Along step ok es s) (hes : es' <+: es) :
    Along step ok es' s := by
  induction es' generalizing es s with
  | nil => trivial
  | cons e es' ih =>
    obtain ⟨rest, rfl⟩ := hes
    obtain ⟨hok, hrest⟩ := h
    refine ⟨hok, ?_⟩
    cases hr : step e s with
    | ok a s' =>
      rw [onReturn_ok hr] at hrest ⊢
      exact ih hrest ⟨rest, rfl⟩
    | error e' s' => exact onReturn_error hr

/-- A step of the run meets its condition after the steps before it. -/
theorem Along.next {es : List ι} {e : ι} {s : σ} (h : Along step ok (es ++ [e]) s) :
    OnReturn (runAll step es) s fun _ s' => ok e s' := by
  induction es generalizing s with
  | nil => exact h.1
  | cons d es ih =>
    obtain ⟨-, hrest⟩ := h
    unfold OnReturn
    rw [runAll]
    cases hr : step d s with
    | ok a s' =>
      rw [run_bind_ok hr]
      exact ih ((onReturn_ok hr).mp hrest)
    | error e' s' =>
      rw [run_bind_error hr]
      trivial

/-- Every step of a run meets its condition exactly if it does so after the steps before it. -/
theorem along_iff_next {es : List ι} {s : σ} :
    Along step ok es s ↔
      ∀ front e, front ++ [e] <+: es → OnReturn (runAll step front) s fun _ t => ok e t := by
  constructor
  · intro h front e hfront
    exact (h.initial hfront).next
  · intro h
    induction es generalizing s with
    | nil => trivial
    | cons d es ih =>
      refine ⟨h [] d (by simp), ?_⟩
      cases hr : step d s with
      | error c t => exact onReturn_error hr
      | ok a t =>
        rw [onReturn_ok hr]
        refine ih fun front e hfront => ?_
        have hnext := h (d :: front) e (by simpa using hfront)
        rwa [OnReturn, runAll, run_bind_ok hr] at hnext

/-- A run whose steps keep an invariant meets every condition that follows from it. -/
theorem Along.imp {ok' : ι → σ → Prop} {es : List ι} {s : σ} (h : Along step ok es s) (hs : I s)
    (hstep : ∀ e s, I s → ok e s → ok' e s ∧ OnReturn (step e) s fun _ t => I t) :
    Along step ok' es s := by
  induction es generalizing s with
  | nil => trivial
  | cons e es ih =>
    obtain ⟨hok, hrest⟩ := h
    obtain ⟨hok', hnext⟩ := hstep e s hs hok
    refine ⟨hok', ?_⟩
    cases hr : step e s with
    | ok a t =>
      rw [onReturn_ok hr] at hrest hnext ⊢
      exact ih hrest hnext
    | error c t => exact onReturn_error hr

/-- The same where the invariant alone is enough for the steps of the run. -/
theorem along_of_invariant {es : List ι} {s : σ} (hs : I s)
    (hstep : ∀ e ∈ es, ∀ s, I s → ok e s ∧ OnReturn (step e) s fun _ t => I t) :
    Along step ok es s := by
  induction es generalizing s with
  | nil => trivial
  | cons e es ih =>
    obtain ⟨hok, hnext⟩ := hstep e List.mem_cons_self s hs
    refine ⟨hok, ?_⟩
    cases hr : step e s with
    | ok a t =>
      rw [onReturn_ok hr] at hnext ⊢
      exact ih hnext fun d hd => hstep d (List.mem_cons_of_mem e hd)
    | error c t => exact onReturn_error hr

/-- A run returns exactly if every step of it does. -/
theorem returned_runAll_iff {es : List ι} {s : σ} : returned (runAll step es s) = true ↔
    Along step (fun e s => returned (step e s) = true) es s := by
  induction es generalizing s with
  | nil => exact iff_of_true rfl trivial
  | cons e es ih =>
    rw [Along, runAll]
    cases hr : step e s with
    | ok a t =>
      rw [run_bind_ok hr, ih, onReturn_ok hr]
      exact (and_iff_right rfl).symm
    | error c t =>
      rw [run_bind_error hr]
      exact iff_of_false (fun h => by cases h) fun h => by cases h.1

/-- Where a step keeps the invariant exactly under the condition of its label, a run meets the
conditions exactly if the invariant holds after every part of it. -/
theorem along_iff_prefixes
    (hstep : ∀ e s, I s → (ok e s ↔ OnReturn (step e) s fun _ s' => I s')) {es : List ι} {s : σ}
    (hs : I s) :
    Along step ok es s ↔ ∀ es', es' <+: es → OnReturn (runAll step es') s fun _ s' => I s' := by
  induction es generalizing s with
  | nil =>
    refine iff_of_true trivial fun es' hes' => ?_
    rw [List.prefix_nil.mp hes']
    exact hs
  | cons e es ih =>
    rw [Along, hstep e s hs]
    cases hr : step e s with
    | ok a s' =>
      rw [onReturn_ok hr, onReturn_ok hr]
      constructor
      · rintro ⟨hs', hrest⟩ es' hes'
        rcases List.prefix_cons_iff.mp hes' with rfl | ⟨front, rfl, hfront⟩
        · exact hs
        · rw [runAll, OnReturn, run_bind_ok hr]
          exact (ih hs').mp hrest front hfront
      · intro h
        have hs' : I s' := by
          have hone := h [e] (by simp)
          rwa [runAll, OnReturn, run_bind_ok hr] at hone
        refine ⟨hs', (ih hs').mpr fun es' hes' => ?_⟩
        have hcons := h (e :: es') (by simpa using hes')
        rwa [runAll, OnReturn, run_bind_ok hr] at hcons
    | error e' s' =>
      refine iff_of_true ⟨onReturn_error hr, onReturn_error hr⟩ fun es' hes' => ?_
      rcases List.prefix_cons_iff.mp hes' with rfl | ⟨front, rfl, -⟩
      · exact hs
      · rw [runAll, OnReturn, run_bind_error hr]
        trivial

/-- The same for a property `P` of the states in which the parts of a run end, returned or not. -/
theorem along_iff_ends {P : σ → Prop} (hP : ∀ s, I s → P s)
    (hstep : ∀ e s, I s → (ok e s ↔ P (finalState (step e s))))
    (hI : ∀ e s, I s → ok e s → I (finalState (step e s))) {es : List ι} {s : σ} (hs : I s) :
    Along step ok es s ↔ ∀ es', es' <+: es → P (finalState (runAll step es' s)) := by
  induction es generalizing s with
  | nil =>
    refine iff_of_true trivial fun es' hes' => ?_
    rw [List.prefix_nil.mp hes']
    exact hP s hs
  | cons e es ih =>
    have hcons : (∀ es', es' <+: e :: es → P (finalState (runAll step es' s))) ↔
        P (finalState (step e s)) ∧ ∀ es', es' <+: es → P (finalState (runAll step (e :: es') s)) := by
      constructor
      · intro h
        refine ⟨?_, fun es' hes' => h _ (by simpa using hes')⟩
        rw [← finalState_runAll_single]
        exact h [e] (by simp)
      · rintro ⟨-, hrest⟩ es' hes'
        rcases List.prefix_cons_iff.mp hes' with rfl | ⟨front, rfl, hfront⟩
        · exact hP s hs
        · exact hrest front hfront
    rw [Along, hcons, ← hstep e s hs]
    refine and_congr_right fun hok => ?_
    have hnext := hI e s hs hok
    cases hr : step e s with
    | ok a s' =>
      have hs' : I s' := by rwa [hr] at hnext
      rw [onReturn_ok hr, ih hs']
      refine forall₂_congr fun es' _ => ?_
      rw [runAll, run_bind_ok hr]
    | error e' s' =>
      have hs' : I s' := by rwa [hr] at hnext
      refine iff_of_true (onReturn_error hr) fun es' _ => ?_
      rw [runAll, run_bind_error hr]
      exact hP s' hs'

end Runs

end Exec09.Foundation
