import Mathlib.Data.BitVec
import Mathlib.Tactic.Ring

/-! # How a chain of operators is grouped

The usual rules take a chain of sums and products from the left to the right.
`eval` cuts it at the first `+`, then at the first `-`, then `*`, then `/`, which
makes every operator associate to the right. The two agree for all operands
exactly if there is one `-` at most between two `+`, and a `/` stands only at
the front of its term.
-/
namespace Exec09.Debugger

inductive ArithOp
  | add | sub | mul | div
  deriving DecidableEq, Repr

/-- Operators with the operands on their right. -/
abbrev Tail (α : Type) := List (ArithOp × α)

/-- The usual rules: `done` is the sum so far, and the current term has a sign. -/
def usualFrom (done sign term : BitVec 64) : Tail (BitVec 64) → BitVec 64
  | [] => done + sign * term
  | (.add, b) :: rest => usualFrom (done + sign * term) 1 b rest
  | (.sub, b) :: rest => usualFrom (done + sign * term) (-1) b rest
  | (.mul, b) :: rest => usualFrom done sign (term * b) rest
  | (.div, b) :: rest => usualFrom done sign (term / b) rest

def usual (a : BitVec 64) (rest : Tail (BitVec 64)) : BitVec 64 := usualFrom 0 1 a rest

/-- A chain as `eval` cuts it, from the last cut to the first one. -/
structure Group where
  quotient : BitVec 64
  product : BitVec 64
  difference : BitVec 64
  sum : BitVec 64
  deriving DecidableEq, Repr

def Group.value (g : Group) : BitVec 64 := g.quotient * g.product - g.difference + g.sum

/-- Put an operand and an operator in front of a chain. -/
def Group.push (a : BitVec 64) (g : Group) : ArithOp → Option Group
  | .add => some ⟨a, 1, 0, g.value⟩
  | .sub => some ⟨a, 1, g.quotient * g.product - g.difference, g.sum⟩
  | .mul => some { g with
      quotient := a
      product := g.quotient * g.product }
  | .div => if g.quotient = 0 then none else some { g with quotient := a / g.quotient }

/-- `none` is a division by zero. -/
def group (a : BitVec 64) : Tail (BitVec 64) → Option Group
  | [] => some ⟨a, 1, 0, 0⟩
  | (op, b) :: rest => (group b rest).bind fun g => g.push a op

/-! ## Shapes -/

/-- No second `-` without a `+` between; `minus` says that there has been one. -/
def OneMinus : Bool → List ArithOp → Prop
  | _, [] => True
  | _, .add :: ops => OneMinus false ops
  | minus, .sub :: ops => minus = false ∧ OneMinus true ops
  | minus, _ :: ops => OneMinus minus ops

/-- No `/` behind an operator of its term; `fresh` says that the term has had none. -/
def LeadingSlash : Bool → List ArithOp → Prop
  | _, [] => True
  | _, .add :: ops => LeadingSlash true ops
  | _, .sub :: ops => LeadingSlash true ops
  | _, .mul :: ops => LeadingSlash false ops
  | fresh, .div :: ops => fresh = true ∧ LeadingSlash false ops

/-- No operand behind a `/` is zero. -/
def NoZero (rest : Tail (BitVec 64)) : Prop := ∀ p ∈ rest, p.1 = .div → p.2 ≠ 0

/-! ## Where the groupings agree -/

/-- What the grouping of a chain says about the usual value, from the last operand `b` on. -/
structure GroupsAs (minus fresh : Bool) (b : BitVec 64) (rest : Tail (BitVec 64)) (g : Group) :
    Prop where
  difference : minus = true → g.difference = 0
  quotient : fresh = false → g.quotient = b
  usual : ∀ done sign term, (minus = false → sign = 1) → (fresh = true → term = b) →
    usualFrom done sign term rest = done +
      sign * (if fresh then g.quotient * g.product else term * g.product) - g.difference + g.sum

/-- By induction on the chain, where the shape allows each operator. -/
theorem group_groupsAs {minus fresh : Bool} {rest : Tail (BitVec 64)}
    (hminus : OneMinus minus (rest.map Prod.fst)) (hslash : LeadingSlash fresh (rest.map Prod.fst))
    (hzero : NoZero rest) (b : BitVec 64) : ∃ g, group b rest = some g ∧ GroupsAs minus fresh b rest g := by
  induction rest generalizing minus fresh b with
  | nil =>
    refine ⟨_, rfl, fun _ => rfl, fun _ => rfl, fun done sign term _ hterm => ?_⟩
    cases fresh with
    | true => simp [usualFrom, hterm]
    | false => simp [usualFrom]
  | cons p rest ih =>
    obtain ⟨op, c⟩ := p
    have hrest : NoZero rest := fun p hp => hzero p (List.mem_cons_of_mem _ hp)
    cases op with
    | add =>
      obtain ⟨g, hgroup, hg⟩ := ih hminus hslash hrest c
      refine ⟨⟨b, 1, 0, g.value⟩, ?_, fun _ => rfl, fun _ => rfl, ?_⟩
      · rw [group, hgroup]
        rfl
      · intro done sign term hsign hterm
        rw [usualFrom, hg.usual _ 1 c (fun _ => rfl) fun _ => rfl]
        cases fresh with
        | true =>
          rw [hterm rfl]
          simp only [if_true, Group.value]
          ring
        | false =>
          simp only [if_true, Bool.false_eq_true, if_false, Group.value]
          ring
    | sub =>
      obtain ⟨hfirst, hminus⟩ := hminus
      obtain ⟨g, hgroup, hg⟩ := ih hminus hslash hrest c
      refine ⟨⟨b, 1, g.quotient * g.product - g.difference, g.sum⟩, ?_, ?_, fun _ => rfl, ?_⟩
      · rw [group, hgroup]
        rfl
      · intro hboth
        rw [hfirst] at hboth
        cases hboth
      · intro done sign term hsign hterm
        have hnone : g.difference = 0 := hg.difference rfl
        rw [usualFrom, hg.usual _ (-1) c (fun h => by cases h) fun _ => rfl, hsign hfirst, hnone]
        cases fresh with
        | true =>
          rw [hterm rfl]
          simp only [if_true]
          ring
        | false =>
          simp only [if_true, Bool.false_eq_true, if_false]
          ring
    | mul =>
      obtain ⟨g, hgroup, hg⟩ := ih hminus hslash hrest c
      have hquotient : g.quotient = c := hg.quotient rfl
      refine ⟨⟨b, g.quotient * g.product, g.difference, g.sum⟩, ?_, hg.difference, fun _ => rfl, ?_⟩
      · rw [group, hgroup]
        rfl
      · intro done sign term hsign hterm
        rw [usualFrom, hg.usual done sign (term * c) hsign (fun h => by cases h), hquotient]
        cases fresh with
        | true =>
          rw [hterm rfl]
          simp only [if_true, Bool.false_eq_true, if_false]
          ring
        | false =>
          simp only [Bool.false_eq_true, if_false]
          ring
    | div =>
      obtain ⟨hfresh, hslash⟩ := hslash
      obtain ⟨g, hgroup, hg⟩ := ih hminus hslash hrest c
      have hquotient : g.quotient = c := hg.quotient rfl
      have hc : c ≠ 0 := hzero _ List.mem_cons_self rfl
      refine ⟨⟨b / c, g.product, g.difference, g.sum⟩, ?_, hg.difference, ?_, ?_⟩
      · rw [group, hgroup]
        change g.push b .div = _
        rw [Group.push, hquotient, if_neg hc]
      · intro hnot
        rw [hfresh] at hnot
        cases hnot
      · intro done sign term hsign hterm
        rw [usualFrom, hg.usual done sign (term / c) hsign (fun h => by cases h), hterm hfresh, hfresh]
        simp

/-- A chain of a good shape has the usual value. -/
theorem group_usual {rest : Tail (BitVec 64)} (hminus : OneMinus false (rest.map Prod.fst))
    (hslash : LeadingSlash true (rest.map Prod.fst)) (hzero : NoZero rest) (a : BitVec 64) :
    (group a rest).map Group.value = some (usual a rest) := by
  obtain ⟨g, hgroup, hg⟩ := group_groupsAs hminus hslash hzero a
  rw [hgroup, usual, hg.usual 0 1 a (fun _ => rfl) fun _ => rfl, Option.map_some, Group.value]
  simp

/-! ## Where they differ -/

/-- Operands that leave the value as it is: ones inside a term, and terms that are zero. -/
def nulls : List ArithOp → Tail (BitVec 64)
  | [] => []
  | op :: ops => (op, if op = .add ∨ op = .sub then 0 else 1) :: nulls ops

theorem nulls_group (ops : List ArithOp) (b : BitVec 64) : group b (nulls ops) = some ⟨b, 1, 0, 0⟩ := by
  induction ops generalizing b with
  | nil => rfl
  | cons op ops ih =>
    rw [nulls, group, ih]
    cases op with
    | div => simp [Group.push]
    | _ => simp [Group.push, Group.value]

theorem nulls_usual (ops : List ArithOp) (done sign term : BitVec 64) :
    usualFrom done sign term (nulls ops) = done + sign * term := by
  induction ops generalizing done sign term with
  | nil => rfl
  | cons op ops ih =>
    cases op with
    | div => simp [nulls, usualFrom, ih]
    | _ => simp [nulls, usualFrom, ih]

/-- Small operands behind the operators, none of them a divisor zero. -/
structure Operands (ops : List ArithOp) (rest : Tail (BitVec 64)) : Prop where
  ops : rest.map Prod.fst = ops
  noZero : NoZero rest
  small : ∀ p ∈ rest, p.2 ∈ [0, 1, 2]

theorem Operands.cons {ops : List ArithOp} {rest : Tail (BitVec 64)} (h : Operands ops rest)
    (op : ArithOp) {b : BitVec 64} (hb : op = .div → b ≠ 0) (hsmall : b ∈ [0, 1, 2]) :
    Operands (op :: ops) ((op, b) :: rest) where
  ops := by rw [List.map_cons, h.ops]
  noZero := List.forall_mem_cons.mpr ⟨hb, h.noZero⟩
  small := List.forall_mem_cons.mpr ⟨hsmall, h.small⟩

theorem nulls_operands (ops : List ArithOp) : Operands ops (nulls ops) := by
  induction ops with
  | nil => exact ⟨rfl, fun p hp => absurd hp List.not_mem_nil, fun p hp => absurd hp List.not_mem_nil⟩
  | cons op ops ih =>
    refine ih.cons op ?_ ?_
    · rintro rfl
      decide
    · split <;> decide

/-- The operand behind a second `-` is one: it is added and not subtracted. -/
theorem minus_differs {minus : Bool} {ops : List ArithOp} (h : ¬OneMinus minus ops) :
    ∃ rest, Operands ops rest ∧ (∃ d s, (∀ b, group b rest = some ⟨b, 1, d, s⟩) ∧
        if minus then d + s = 1 else s - d = 1) ∧
      ∀ done sign term, usualFrom done sign term rest = done + sign * term - 1 := by
  induction ops generalizing minus with
  | nil => exact absurd trivial h
  | cons op ops ih =>
    cases op with
    | add =>
      obtain ⟨rest, hrest, ⟨d, s, hgroup, hds⟩, husual⟩ := ih h
      simp only [Bool.false_eq_true, if_false] at hds
      refine ⟨(.add, 0) :: rest, hrest.cons _ (by simp) (by simp), ⟨0, s - d, fun b => ?_, ?_⟩, ?_⟩
      · rw [group, hgroup]
        simp [Group.push, Group.value, sub_eq_add_neg, add_comm]
      · split <;> simp [hds]
      · intro done sign term
        rw [usualFrom, husual]
        ring
    | sub =>
      cases minus with
      | true =>
        refine ⟨(.sub, 1) :: nulls ops, (nulls_operands ops).cons _ (by simp) (by simp), ⟨1, 0, fun b => ?_, ?_⟩, ?_⟩
        · rw [group, nulls_group]
          simp [Group.push]
        · simp
        · intro done sign term
          rw [usualFrom, nulls_usual]
          ring
      | false =>
        obtain ⟨rest, hrest, ⟨d, s, hgroup, hds⟩, husual⟩ := ih fun hnot => h ⟨rfl, hnot⟩
        simp only [if_true] at hds
        refine ⟨(.sub, 0) :: rest, hrest.cons _ (by simp) (by simp), ⟨-d, s, fun b => ?_, ?_⟩, ?_⟩
        · rw [group, hgroup]
          simp [Group.push]
        · simp only [Bool.false_eq_true, if_false, ← hds]
          ring
        · intro done sign term
          rw [usualFrom, husual]
          ring
    | mul =>
      obtain ⟨rest, hrest, ⟨d, s, hgroup, hds⟩, husual⟩ := ih h
      refine ⟨(.mul, 1) :: rest, hrest.cons _ (by simp) (by simp), ⟨d, s, fun b => ?_, hds⟩, ?_⟩
      · rw [group, hgroup]
        simp [Group.push]
      · intro done sign term
        rw [usualFrom, husual, mul_one]
    | div =>
      obtain ⟨rest, hrest, ⟨d, s, hgroup, hds⟩, husual⟩ := ih h
      refine ⟨(.div, 1) :: rest, hrest.cons _ (by simp) (by simp), ⟨d, s, fun b => ?_, hds⟩, ?_⟩
      · rw [group, hgroup]
        simp [Group.push]
      · intro done sign term
        rw [usualFrom, husual]
        simp

/-- The grouped term is zero, if the grouping does not divide by zero. -/
def Vanishes (o : Option Group) : Prop :=
  ∀ g, o = some g → (g.quotient = 0 ∨ g.product = 0) ∧ g.difference = 0 ∧ g.sum = 0

/-- The current term, which begins with two, vanishes, and by the usual rules it is halved. -/
structure SpoilsTerm (fresh : Bool) (rest : Tail (BitVec 64)) : Prop where
  vanishes : Vanishes (group (if fresh then 2 else 1) rest)
  usual : ∀ done sign term, usualFrom done sign term rest = done + sign * (term / 2)

/-- A later term vanishes, and by the usual rules it does not. -/
structure SpoilsLater (rest : Tail (BitVec 64)) : Prop where
  vanishes : ∀ b g, group b rest = some g → g = ⟨b, 1, 0, 0⟩
  usual : ∃ v, v ≠ 0 ∧ ∀ done sign term, usualFrom done sign term rest = done + sign * term + v

theorem SpoilsLater.cons {op : ArithOp} {c : BitVec 64} {rest : Tail (BitVec 64)}
    (h : SpoilsLater rest) (hc : c = if op = .add ∨ op = .sub then 0 else 1) :
    SpoilsLater ((op, c) :: rest) := by
  subst hc
  refine ⟨fun b g hg => ?_, ?_⟩
  · rw [group] at hg
    obtain ⟨g', hgroup, hpush⟩ := Option.bind_eq_some_iff.mp hg
    rw [h.vanishes _ g' hgroup] at hpush
    cases op <;> simpa [Group.push, Group.value] using hpush.symm
  · obtain ⟨v, hv, husual⟩ := h.usual
    refine ⟨v, hv, fun done sign term => ?_⟩
    cases op <;> simp [usualFrom, husual]

/-- A term that begins with two and vanishes is spoilt for the chain in front of it. -/
theorem SpoilsTerm.later {op : ArithOp} {rest : Tail (BitVec 64)} (h : SpoilsTerm true rest)
    (hop : op = .add ∨ op = .sub) : SpoilsLater ((op, 2) :: rest) := by
  refine ⟨fun b g hg => ?_, ?_⟩
  · rw [group] at hg
    obtain ⟨g', hgroup, hpush⟩ := Option.bind_eq_some_iff.mp hg
    obtain ⟨hterm, hdifference, hsum⟩ := h.vanishes g' hgroup
    have hzero : g'.quotient * g'.product = 0 := by rcases hterm with h | h <;> simp [h]
    rcases hop with rfl | rfl <;>
      simpa [Group.push, Group.value, hzero, hdifference, hsum] using hpush.symm
  · rcases hop with rfl | rfl
    · refine ⟨1, by decide, fun done sign term => ?_⟩
      rw [usualFrom, h.usual]
      rfl
    · refine ⟨-1, by decide, fun done sign term => ?_⟩
      rw [usualFrom, h.usual]
      rfl

/-- The operands of a term with a `/` that is not in front are ones, with a two there and a two
behind the `/`. -/
theorem slash_differs {fresh : Bool} {ops : List ArithOp} (h : ¬LeadingSlash fresh ops) :
    ∃ rest, Operands ops rest ∧ (SpoilsTerm fresh rest ∨ SpoilsLater rest) := by
  induction ops generalizing fresh with
  | nil => exact absurd trivial h
  | cons op ops ih =>
    have hnext (hop : op = .add ∨ op = .sub) (hrest : ¬LeadingSlash true ops) :
        ∃ rest, Operands (op :: ops) rest ∧ (SpoilsTerm fresh rest ∨ SpoilsLater rest) := by
      obtain ⟨rest, hoperands, hterm | hlater⟩ := ih hrest
      · refine ⟨(op, 2) :: rest, hoperands.cons op ?_ (by simp), .inr (hterm.later hop)⟩
        simp
      · refine ⟨(op, 0) :: rest, hoperands.cons op ?_ (by simp), .inr (hlater.cons (if_pos hop).symm)⟩
        rintro rfl
        simp at hop
    cases op with
    | add => exact hnext (.inl rfl) h
    | sub => exact hnext (.inr rfl) h
    | mul =>
      obtain ⟨rest, hoperands, hterm | hlater⟩ := ih h
      · refine ⟨(.mul, 1) :: rest, hoperands.cons _ (by simp) (by simp), .inl ⟨fun g hg => ?_, ?_⟩⟩
        · rw [group] at hg
          obtain ⟨g', hgroup, hpush⟩ := Option.bind_eq_some_iff.mp hg
          obtain ⟨hzero, hdifference, hsum⟩ := hterm.vanishes g' hgroup
          cases hpush
          refine ⟨.inr ?_, hdifference, hsum⟩
          rcases hzero with h | h <;> simp [h]
        · intro done sign term
          rw [usualFrom, hterm.usual, mul_one]
      · exact ⟨(.mul, 1) :: rest, hoperands.cons _ (by simp) (by simp), .inr (hlater.cons rfl)⟩
    | div =>
      cases fresh with
      | false =>
        refine ⟨(.div, 2) :: nulls ops, (nulls_operands ops).cons _ (by simp) (by simp),
          .inl ⟨fun g hg => ?_, ?_⟩⟩
        · rw [group, nulls_group] at hg
          cases hg
          exact ⟨.inl rfl, rfl, rfl⟩
        · intro done sign term
          rw [usualFrom, nulls_usual]
      | true =>
        obtain ⟨rest, hoperands, hterm | hlater⟩ := ih fun hnot => h ⟨rfl, hnot⟩
        · refine ⟨(.div, 1) :: rest, hoperands.cons _ (by simp) (by simp), .inl ⟨fun g hg => ?_, ?_⟩⟩
          · rw [group] at hg
            obtain ⟨g', hgroup, hpush⟩ := Option.bind_eq_some_iff.mp hg
            obtain ⟨hzero, hdifference, hsum⟩ := hterm.vanishes g' hgroup
            rw [Group.push] at hpush
            split at hpush
            · cases hpush
            · rename_i hquotient
              cases hpush
              exact ⟨.inr (hzero.resolve_left hquotient), hdifference, hsum⟩
          · intro done sign term
            rw [usualFrom, hterm.usual]
            simp
        · exact ⟨(.div, 1) :: rest, hoperands.cons _ (by simp) (by simp), .inr (hlater.cons rfl)⟩

/-- For every other shape there are operands for which the two groupings differ. -/
theorem group_differs {ops : List ArithOp} (h : ¬(OneMinus false ops ∧ LeadingSlash true ops)) :
    ∃ a rest, a ∈ [0, 1, 2] ∧ Operands ops rest ∧
      (group a rest).map Group.value ≠ some (usual a rest) := by
  by_cases hminus : OneMinus false ops
  · obtain ⟨rest, hrest, hterm | hlater⟩ := slash_differs fun hslash => h ⟨hminus, hslash⟩
    · refine ⟨2, rest, by simp, hrest, fun heq => ?_⟩
      obtain ⟨g, hgroup, hvalue⟩ := Option.map_eq_some_iff.mp heq
      obtain ⟨hzero, hdifference, hsum⟩ := hterm.vanishes g hgroup
      have hproduct : g.quotient * g.product = 0 := by rcases hzero with h | h <;> simp [h]
      rw [usual, hterm.usual, Group.value, hproduct, hdifference, hsum] at hvalue
      exact absurd hvalue (by decide)
    · obtain ⟨v, hv, husual⟩ := hlater.usual
      refine ⟨0, rest, by simp, hrest, fun heq => ?_⟩
      obtain ⟨g, hgroup, hvalue⟩ := Option.map_eq_some_iff.mp heq
      rw [hlater.vanishes 0 g hgroup, usual, husual] at hvalue
      exact hv (by simpa [Group.value] using hvalue.symm)
  · obtain ⟨rest, hrest, ⟨d, s, hgroup, hds⟩, husual⟩ := minus_differs hminus
    refine ⟨0, rest, by simp, hrest, fun heq => ?_⟩
    simp only [Bool.false_eq_true, if_false] at hds
    rw [hgroup, Option.map_some, usual, husual] at heq
    have hone : (0 : BitVec 64) * 1 - d + s = 1 := by
      rw [← hds]
      ring
    rw [Group.value, hone] at heq
    exact absurd heq (by decide)

end Exec09.Debugger
