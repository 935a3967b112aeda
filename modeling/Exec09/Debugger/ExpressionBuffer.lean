import Exec09.Debugger.CommandStops
import Exec09.Foundation.StringBuffer

/-! # Expressions cut up in place

The evaluator as it works on its buffer: it writes a zero over an operator and
evaluates the parts where they stand. Every evaluation stays in its string, and
each is for a shorter one, though `eval` and `eval_mem` hand the same string to
each other.
-/
namespace Exec09.Debugger
open Foundation

/-- The functions that call each other. -/
inductive Evaluator
  | eval | evalMem | evalAssign | foldComparisons | foldBinary
  deriving DecidableEq, Repr

namespace InPlace

abbrev PlaceM (τ : Type) := EStateM Crash (InMemory Evaluator (Session τ))

inductive Operator
  | plus | minus | star | slash

def Operator.char : Operator → BitVec 8
  | plus => 43
  | minus => 45
  | star => 42
  | slash => 47

variable {τ : Type}

def Operator.apply (val1 val2 : BitVec 64) : Operator → EvalM τ (BitVec 64)
  | plus => return val1 + val2
  | minus => return val1 - val2
  | star => return val1 * val2
  | slash => divide val1 val2

section
variable (fuel : ℕ)

def string (expr : ℕ) : PlaceM τ Text := InMemory.readString .outOfFuel fuel expr

def strchr (expr : ℕ) (c : BitVec 8) : PlaceM τ (Option ℕ) := do
  return (Text.splitChar c (← string fuel expr)).map fun sides => expr + sides.1.length

/-- The second string, if the operator is there. -/
def matchBinary (expr : ℕ) (op : Text) : PlaceM τ (Option ℕ) := do
  match Text.splitText op (← string fuel expr) with
  | none => return none
  | some sides => do
    let p := expr + sides.1.length
    InMemory.writeNul p
    return some (p + op.length)

/-! The functions below take the recursive calls of `eval` as `rec`. -/

variable (leftFirst : BitVec 8 → Bool) (rec : ℕ → PlaceM τ (BitVec 64))

/-- Two strings in the order that the compiler has chosen for this operator. -/
def bothSides (c : BitVec 8) (expr p : ℕ) : PlaceM τ (BitVec 64 × BitVec 64) :=
  if leftFirst c then do
    let val1 ← rec expr
    let val2 ← rec p
    return (val1, val2)
  else do
    let val2 ← rec p
    let val1 ← rec expr
    return (val1, val2)

def foldComparisons (expr : ℕ) : PlaceM τ (Option (BitVec 64)) := do
  InMemory.enter .foldComparisons expr
  match ← matchBinary fuel expr (Text.ofString "==") with
  | some p => do
    let (a, b) ← bothSides leftFirst rec 61 expr p
    return some (if a = b then 1 else 0)
  | none =>
    match ← matchBinary fuel expr (Text.ofString "!=") with
    | some p => do
      let (a, b) ← bothSides leftFirst rec 33 expr p
      return some (if a ≠ b then 1 else 0)
    | none => return none

def foldBinary (expr : ℕ) (op : Operator) : PlaceM τ (Option (BitVec 64)) := do
  InMemory.enter .foldBinary expr
  match ← strchr fuel expr op.char with
  | none => return none
  | some p =>
    if p = expr then return none
    else do
      InMemory.writeNul p
      let val1 ← rec expr
      let val2 ← rec (p + 1)
      return some (← InMemory.onRest (op.apply val1 val2))

variable [Target τ]

/-- A symbol of one of the two tables, or 0. -/
def symbolValue (name : Text) : EvalM τ (BitVec 64) := do
  match Target.symbol name (← get).target with
  | some val => return val
  | none => do
    flagError 8
    return 0

/-- The start of `eval_mem`, which finds the address. -/
def evalAddress (expr : ℕ) : PlaceM τ (BitVec 64) := do
  match ← strchr fuel expr 58 with
  | some p => do
    InMemory.writeNul p
    let (devno, phyaddr) ← bothSides leftFirst rec 58 expr (p + 1)
    return makeAddr devno phyaddr
  | none => do
    let c ← InMemory.readChar expr
    if Text.isAlpha c || c == 95 then do
      InMemory.onRest (symbolValue (← string fuel expr))
    else do
      let addr ← rec expr
      return Target.toAbsolute addr (← get).rest.target

def evalMem (expr : ℕ) (mode : EvalMode) : PlaceM τ (BitVec 64) := do
  InMemory.enter .evalMem expr
  let val ← evalAddress fuel leftFirst rec expr
  match mode with
  | .LVALUE => return val
  | .RVALUE => InMemory.onRest (targetRead val 1)

/-- `abs_write8`, unless an error is flagged. -/
def storeByte (dst val : BitVec 64) : EvalM τ Unit := do
  if (← get).eflag = 0 then onTarget (Target.absWrite8 dst (val.setWidth 8))

def evalAssign (expr : ℕ) (val : BitVec 64) : PlaceM τ Unit := do
  InMemory.enter .evalAssign expr
  if (← InMemory.readChar expr) = 36 then do
    let name ← string fuel (expr + 1)
    InMemory.onRest (assignVirtual name val)
  else do
    let dst ← evalMem fuel leftFirst rec expr .LVALUE
    InMemory.onRest (storeByte dst val)

def lastValue : EvalM τ (BitVec 64) := do evalHistorical ((← get).historyCount - 1)

/-- `$$n`. -/
def historicalBefore (n : BitVec 64) : EvalM τ (BitVec 64) := do
  let last := ((← get).historyCount - 1).zeroExtend 64
  evalHistorical ((last - n).setWidth 32)

/-- The forms that start with `$`. -/
def evalDollar (expr : ℕ) : PlaceM τ (BitVec 64) := do
  let c ← InMemory.readChar (expr + 1)
  if c = 36 then do
    let digits ← string fuel (expr + 2)
    InMemory.onRest (historicalBefore ((Text.strtoul 10 digits).getD 0))
  else if Text.isDigit c then do
    let digits ← string fuel (expr + 1)
    InMemory.onRest (evalHistorical (((Text.strtoul 10 digits).getD 0).setWidth 32))
  else if c = 0 then InMemory.onRest lastValue
  else do
    let name ← string fuel (expr + 1)
    InMemory.onRest (evalVirtual name)

/-- An expression without a binary operator. -/
def evalPrimary (expr : ℕ) : PlaceM τ (BitVec 64) := do
  let c ← InMemory.readChar expr
  if c = 36 then evalDollar fuel expr
  else if c = 38 then evalMem fuel leftFirst rec (expr + 1) .LVALUE
  else if Text.isAlpha c || c == 95 then evalMem fuel leftFirst rec expr .RVALUE
  else do
    match Text.strtoul 0 (← string fuel expr) with
    | some val => return val
    | none => do
      InMemory.onRest (flagError 0x20)
      return 0

/-- The first of the operators that is there, or the expression without any. -/
def foldOperators (expr : ℕ) : List Operator → PlaceM τ (BitVec 64)
  | [] => evalPrimary fuel leftFirst rec expr
  | op :: ops => do
    match ← foldBinary fuel rec expr op with
    | some val => return val
    | none => foldOperators expr ops

def evalBody (expr : ℕ) : PlaceM τ (BitVec 64) := do
  InMemory.enter .eval expr
  match ← foldComparisons fuel leftFirst rec expr with
  | some val => return val
  | none =>
    match ← strchr fuel expr 61 with
    | some p => do
      InMemory.writeNul p
      let val ← rec (p + 1)
      evalAssign fuel leftFirst rec expr val
      return val
    | none => foldOperators fuel leftFirst rec expr [.plus, .minus, .star, .slash]

end

/-- `eval` of the string at `expr`, to a depth of recursion. -/
def eval [Target τ] (leftFirst : BitVec 8 → Bool) : ℕ → ℕ → PlaceM τ (BitVec 64)
  | 0, _ => throw .outOfFuel
  | fuel + 1, expr => evalBody (fuel + 1) leftFirst (eval leftFirst fuel) expr

/-! ## Why the parts beside the buffer stop -/

section
variable {τ : Type}

instance apply_tame (val1 val2 : BitVec 64) (op : Operator) :
    Tame (op.apply (τ := τ) val1 val2) := by
  cases op <;> unfold Operator.apply <;> infer_instance

instance lastValue_tame : Tame (lastValue (τ := τ)) := by
  unfold lastValue
  infer_instance

instance historicalBefore_tame (n : BitVec 64) : Tame (historicalBefore (τ := τ) n) := by
  unfold historicalBefore
  infer_instance

variable [Target τ]

instance symbolValue_tame (name : Text) : Tame (symbolValue (τ := τ) name) := by
  refine StopsFor.get.seq fun s => ?_
  cases Target.symbol name s.target <;> infer_instance

instance storeByte_tame (dst val : BitVec 64) : Tame (storeByte (τ := τ) dst val) := by
  unfold storeByte
  infer_instance

end

/-! ## Staying in the string -/

section
variable {τ : Type} {fuel p q : ℕ} {t u : CString} {s : InMemory Evaluator (Session τ)}

/-- The program stays in the string, and it stops as the emulator does or by a division by zero. -/
abbrev Stays {α : Type} (p : ℕ) (t : CString) (s : InMemory Evaluator (Session τ)) (m : PlaceM τ α)
    (Q : α → InMemory Evaluator (Session τ) → Prop) : Prop :=
  InMemory.Stays (fun e : Crash => e.tame = true) p t s m Q

theorem onRest_stays {α : Type} {m : EvalM τ α} [hm : Tame m] :
    Stays p t s (InMemory.onRest m) fun _ _ => True :=
  (InMemory.Stays.onRest hm).imp fun _ _ _ _ => trivial

theorem string_silent (hpart : CString.Part q u p t) (h : CString.Holds s.mem q u)
    (hfuel : u.length < fuel) :
    InMemory.Silent p t s (string fuel q) fun r s' => r = u.bytes ∧ s'.mem = s.mem :=
  InMemory.Silent.readString _ hpart h hfuel

theorem strchr_silent (h : CString.Holds s.mem p t) (hfuel : t.length < fuel) (c : BitVec 8) :
    InMemory.Silent p t s (strchr fuel p c) fun r s' => s'.mem = s.mem ∧
      ((Text.splitChar c t.bytes = none ∧ r = none) ∨ ∃ before after,
        Text.splitChar c t.bytes = some (before.bytes, after.bytes) ∧
          CString.Cut t before [c] after ∧ r = some (p + before.length)) := by
  refine (string_silent (.refl p t) h hfuel).bind ?_
  rintro r s' - ⟨rfl, hmem⟩
  refine .pure ⟨hmem, ?_⟩
  cases hsplit : Text.splitChar c t.bytes with
  | none => exact .inl ⟨rfl, rfl⟩
  | some sides =>
    have heq : t.bytes = sides.1 ++ [c] ++ sides.2 := by
      rw [List.append_assoc]
      exact Text.splitChar_eq hsplit
    obtain ⟨before, after, hbefore, hafter, hcut⟩ :=
      CString.exists_cut heq (List.cons_ne_nil c [])
    refine .inr ⟨before, after, ?_, hcut, ?_⟩
    · rw [hbefore, hafter]
    · rw [CString.length, hbefore]
      rfl

theorem matchBinary_silent (h : CString.Holds s.mem p t) (hfuel : t.length < fuel) (op : Text)
    (hop : op ≠ []) :
    InMemory.Silent p t s (matchBinary fuel p op) fun r s' =>
      (Text.splitText op t.bytes = none ∧ r = none ∧ s'.mem = s.mem) ∨ ∃ before after,
        Text.splitText op t.bytes = some (before.bytes, after.bytes) ∧
          CString.Cut t before op after ∧ r = some (p + before.length + op.length) ∧
            CString.Holds s'.mem p before ∧
              CString.Holds s'.mem (p + before.length + op.length) after := by
  refine (string_silent (.refl p t) h hfuel).bind ?_
  rintro r s' - ⟨rfl, hmem⟩
  cases hsplit : Text.splitText op t.bytes with
  | none => exact .pure (.inl ⟨rfl, rfl, hmem⟩)
  | some sides =>
    obtain ⟨before, after, hbefore, hafter, hcut⟩ :=
      CString.exists_cut (Text.splitText_eq hsplit) hop
    have hat : p + sides.1.length = p + before.length := by rw [CString.length, hbefore]
    simp only [hat]
    refine (InMemory.Silent.cut hcut (hmem ▸ h)).bind fun _ s'' _ hparts => ?_
    refine .pure (.inr ⟨before, after, ?_, hcut, rfl, hparts⟩)
    rw [hbefore, hafter]

/-- The calls for strings shorter than `n` stay in them. -/
def CallsStay (n : ℕ) (rec : ℕ → PlaceM τ (BitVec 64)) : Prop :=
  ∀ q u s, CString.Holds s.mem q u → u.length < n → Stays q u s (rec q) fun _ _ => True

variable {leftFirst : BitVec 8 → Bool} {rec : ℕ → PlaceM τ (BitVec 64)}

theorem CallsStay.mono {m n : ℕ} (h : CallsStay n rec) (hle : m ≤ n) : CallsStay m rec :=
  fun q u s hu hlt => h q u s hu (hlt.trans_le hle)

variable (leftFirst) in
/-- The two parts of a string do not disturb each other, whichever comes first. -/
theorem bothSides_stays (hrec : CallsStay t.length rec) (c : BitVec 8) {before after : CString}
    {op : Text} (hcut : CString.Cut t before op after) (hbefore : CString.Holds s.mem p before)
    (hafter : CString.Holds s.mem (p + before.length + op.length) after) :
    Stays p t s (bothSides leftFirst rec c p (p + before.length + op.length)) fun _ _ => True := by
  have hlength := hcut.length_eq
  have hpos := hcut.op_pos
  have hleft {s : InMemory Evaluator (Session τ)} (h : CString.Holds s.mem p before) :=
    (hrec p before s h (by omega)).part (hcut.before_part p)
  have hright {s : InMemory Evaluator (Session τ)}
      (h : CString.Holds s.mem (p + before.length + op.length) after) :=
    (hrec _ after s h (by omega)).part (hcut.after_part p)
  rw [bothSides]
  split
  · refine (hleft hbefore).bind fun val1 s' _ hran => ?_
    have hafter' := hran.2.holds hafter (.inr (by omega))
    exact (hright hafter').bind fun val2 s'' _ _ => .pure trivial
  · refine (hright hafter).bind fun val2 s' _ hran => ?_
    have hbefore' := hran.2.holds hbefore (.inl (by omega))
    exact (hleft hbefore').bind fun val1 s'' _ _ => .pure trivial

/-- One side after the other, as `fold_binary` evaluates them. -/
theorem bothSides_inOrder {α : Type} (c : BitVec 8) (expr p : ℕ)
    (f : BitVec 64 → BitVec 64 → PlaceM τ α) :
    (do
      let val1 ← rec expr
      let val2 ← rec p
      f val1 val2) = bothSides (fun _ => true) rec c expr p >>= fun vals => f vals.1 vals.2 := by
  simp only [bothSides, if_true, bind_assoc, pure_bind]

/-- If there is no comparison, the memory is as it was. -/
theorem foldComparisons_stays (hrec : CallsStay t.length rec) (h : CString.Holds s.mem p t)
    (hfuel : t.length < fuel) :
    Stays p t s (foldComparisons fuel leftFirst rec p) fun r s' => r = none → s'.mem = s.mem := by
  rw [foldComparisons]
  refine (InMemory.Silent.enter _ (.refl p t) h).stays.bind fun _ s₁ _ hmem₁ => ?_
  have h₁ : CString.Holds s₁.mem p t := hmem₁ ▸ h
  refine (matchBinary_silent h₁ hfuel _ (by decide)).stays.bind ?_
  rintro r s₂ - (⟨-, rfl, hmem₂⟩ | ⟨before, after, -, hcut, rfl, hbefore, hafter⟩)
  · have h₂ : CString.Holds s₂.mem p t := hmem₂ ▸ h₁
    refine (matchBinary_silent h₂ hfuel _ (by decide)).stays.bind ?_
    rintro r s₃ - (⟨-, rfl, hmem₃⟩ | ⟨before, after, -, hcut, rfl, hbefore, hafter⟩)
    · exact .pure fun _ => hmem₃.trans (hmem₂.trans hmem₁)
    · exact (bothSides_stays leftFirst hrec 33 hcut hbefore hafter).bind fun _ s₄ _ _ =>
        .pure nofun
  · exact (bothSides_stays leftFirst hrec 61 hcut hbefore hafter).bind fun _ s₃ _ _ => .pure nofun

theorem foldBinary_stays (hrec : CallsStay t.length rec) (h : CString.Holds s.mem p t)
    (hfuel : t.length < fuel) (op : Operator) :
    Stays p t s (foldBinary fuel rec p op) fun r s' => r = none → s'.mem = s.mem := by
  rw [foldBinary]
  refine (InMemory.Silent.enter _ (.refl p t) h).stays.bind fun _ s₁ _ hmem₁ => ?_
  have h₁ : CString.Holds s₁.mem p t := hmem₁ ▸ h
  refine (strchr_silent h₁ hfuel op.char).stays.bind ?_
  rintro r s₂ - ⟨hmem₂, ⟨-, rfl⟩ | ⟨before, after, -, hcut, rfl⟩⟩
  · exact .pure fun _ => hmem₂.trans hmem₁
  · have h₂ : CString.Holds s₂.mem p t := hmem₂ ▸ h₁
    dsimp only
    split
    · exact .pure fun _ => hmem₂.trans hmem₁
    · refine (InMemory.Silent.cut hcut h₂).stays.bind ?_
      rintro _ s₃ - ⟨hbefore, hafter⟩
      rw [bothSides_inOrder op.char]
      refine (bothSides_stays _ hrec op.char hcut hbefore hafter).bind fun vals s₄ _ _ => ?_
      exact (InMemory.Stays.onRest (apply_tame vals.1 vals.2 op)).bind fun _ s₅ _ _ => .pure nofun

theorem startsName_eq (t : CString) :
    startsName t.bytes = (Text.isAlpha (t.byte 0) || t.byte 0 == 95) := by
  rw [CString.byte]
  cases t.bytes with
  | nil => rfl
  | cons c b => rfl

theorem exists_tail_of_byte {c : BitVec 8} (hc : t.byte 0 = c) (hne : c ≠ 0) :
    ∃ u : CString, t.bytes = c :: u.bytes ∧ t.length = u.length + 1 ∧
      ∀ p, CString.Part (p + 1) u p t ∧
        ∀ mem, CString.Holds mem p t → CString.Holds mem (p + 1) u := by
  rw [CString.byte] at hc
  cases hbytes : t.bytes with
  | nil =>
    rw [hbytes, List.getD_nil] at hc
    exact absurd hc.symm hne
  | cons d b =>
    rw [hbytes, List.getD_cons_zero] at hc
    obtain ⟨u, rfl, hlength, hu⟩ := CString.exists_tail hbytes
    exact ⟨u, by rw [hc], hlength, hu⟩

variable [Target τ]

/-- The same string is handed back to `eval` only if it does not start a name. -/
theorem evalAddress_stays (hrec : CallsStay t.length rec)
    (hsame : startsName t.bytes = false → CallsStay (t.length + 1) rec)
    (h : CString.Holds s.mem p t) (hfuel : t.length < fuel) :
    Stays p t s (evalAddress fuel leftFirst rec p) fun _ _ => True := by
  rw [evalAddress]
  refine (strchr_silent h hfuel 58).stays.bind ?_
  rintro r s₁ - ⟨hmem₁, ⟨-, rfl⟩ | ⟨before, after, -, hcut, rfl⟩⟩
  · have h₁ : CString.Holds s₁.mem p t := hmem₁ ▸ h
    refine (InMemory.Silent.readFirst (.refl p t) h₁).stays.bind ?_
    rintro c s₂ - ⟨rfl, hmem₂⟩
    have h₂ : CString.Holds s₂.mem p t := hmem₂ ▸ h₁
    rw [← startsName_eq]
    cases hname : startsName t.bytes with
    | true =>
      refine (string_silent (.refl p t) h₂ hfuel).stays.bind ?_
      rintro name s₃ - -
      exact onRest_stays
    | false =>
      refine (hsame hname p t s₂ h₂ (Nat.lt_succ_self _)).bind ?_
      intro addr s₃ _ _
      exact InMemory.Stays.get.bind fun _ s₄ _ _ => .pure trivial
  · refine (InMemory.Silent.cut hcut (hmem₁ ▸ h)).stays.bind ?_
    rintro _ s₂ - ⟨hbefore, hafter⟩
    exact (bothSides_stays leftFirst hrec 58 hcut hbefore hafter).bind fun _ s₃ _ _ => .pure trivial

theorem evalMem_stays (hrec : CallsStay t.length rec)
    (hsame : startsName t.bytes = false → CallsStay (t.length + 1) rec)
    (h : CString.Holds s.mem p t) (hfuel : t.length < fuel) (mode : EvalMode) :
    Stays p t s (evalMem fuel leftFirst rec p mode) fun _ _ => True := by
  rw [evalMem]
  refine (InMemory.Silent.enter _ (.refl p t) h).stays.bind fun _ s₁ _ hmem₁ => ?_
  refine (evalAddress_stays hrec hsame (hmem₁ ▸ h) hfuel).bind fun val s₂ _ _ => ?_
  cases mode with
  | LVALUE => exact .pure trivial
  | RVALUE => exact onRest_stays

theorem evalAssign_stays (hrec : CallsStay (t.length + 1) rec) (h : CString.Holds s.mem p t)
    (hfuel : t.length < fuel) (val : BitVec 64) :
    Stays p t s (evalAssign fuel leftFirst rec p val) fun _ _ => True := by
  rw [evalAssign]
  refine (InMemory.Silent.enter _ (.refl p t) h).stays.bind fun _ s₁ _ hmem₁ => ?_
  have h₁ : CString.Holds s₁.mem p t := hmem₁ ▸ h
  refine (InMemory.Silent.readFirst (.refl p t) h₁).stays.bind ?_
  rintro c s₂ - ⟨rfl, hmem₂⟩
  have h₂ : CString.Holds s₂.mem p t := hmem₂ ▸ h₁
  split
  · next hdollar =>
    obtain ⟨u, -, hlength, hu⟩ := exists_tail_of_byte hdollar (by decide)
    refine (string_silent (hu p).1 ((hu p).2 _ h₂) (by omega)).stays.bind ?_
    rintro name s₃ - -
    exact onRest_stays
  · refine (evalMem_stays (hrec.mono (Nat.le_succ _)) (fun _ => hrec) h₂ hfuel .LVALUE).bind ?_
    intro dst s₃ _ _
    exact onRest_stays

theorem evalDollar_stays (hdollar : t.byte 0 = 36) (h : CString.Holds s.mem p t)
    (hfuel : t.length < fuel) : Stays p t s (evalDollar fuel p) fun _ _ => True := by
  obtain ⟨u, -, hlength, hu⟩ := exists_tail_of_byte hdollar (by decide)
  obtain ⟨hpart, hholds⟩ := hu p
  have hu₀ := hholds s.mem h
  have hstring {s' : InMemory Evaluator (Session τ)} (hmem : s'.mem = s.mem) :
      Stays p t s' (string fuel (p + 1)) fun r s'' => r = u.bytes ∧ s''.mem = s'.mem :=
    (string_silent hpart (hmem ▸ hu₀) (by omega)).stays
  rw [evalDollar]
  refine (InMemory.Silent.readFirst hpart hu₀).stays.bind ?_
  rintro c s₁ - ⟨rfl, hmem₁⟩
  split
  · next hsecond =>
    obtain ⟨v, -, hlength', hv⟩ := exists_tail_of_byte hsecond (by decide)
    obtain ⟨hpart', hholds'⟩ := hv (p + 1)
    refine (string_silent (hpart'.trans hpart) (hholds' _ (hmem₁ ▸ hu₀)) (by omega)).stays.bind ?_
    rintro digits s₂ - -
    exact onRest_stays
  · split
    · refine (hstring hmem₁).bind ?_
      rintro digits s₂ - -
      exact onRest_stays
    · split
      · exact onRest_stays
      · refine (hstring hmem₁).bind ?_
        rintro name s₂ - -
        exact onRest_stays

theorem evalPrimary_stays (hrec : CallsStay t.length rec) (h : CString.Holds s.mem p t)
    (hfuel : t.length < fuel) :
    Stays p t s (evalPrimary fuel leftFirst rec p) fun _ _ => True := by
  rw [evalPrimary]
  refine (InMemory.Silent.readFirst (.refl p t) h).stays.bind ?_
  rintro c s₁ - ⟨rfl, hmem₁⟩
  have h₁ : CString.Holds s₁.mem p t := hmem₁ ▸ h
  split
  · next hdollar => exact evalDollar_stays hdollar h₁ hfuel
  · split
    · next hplace =>
      obtain ⟨u, -, hlength, hu⟩ := exists_tail_of_byte hplace (by decide)
      have hshort : CallsStay (u.length + 1) rec := hrec.mono (by omega)
      have hmem : Stays (p + 1) u s₁ (evalMem fuel leftFirst rec (p + 1) .LVALUE) fun _ _ => True :=
        evalMem_stays (hshort.mono (Nat.le_succ _)) (fun _ => hshort) ((hu p).2 _ h₁) (by omega)
          .LVALUE
      exact (hmem.part (hu p).1).imp fun _ _ _ _ => trivial
    · rw [← startsName_eq]
      split
      · next hname =>
        -- the string is handed on as it is, and does not come back
        refine evalMem_stays hrec (fun hother => ?_) h₁ hfuel .RVALUE
        rw [hname] at hother
        cases hother
      · refine (string_silent (.refl p t) h₁ hfuel).stays.bind ?_
        rintro text s₂ - ⟨rfl, -⟩
        cases Text.strtoul 0 t.bytes with
        | some val => exact .pure trivial
        | none => exact onRest_stays.bind fun _ _ _ _ => .pure trivial

theorem foldOperators_stays (hrec : CallsStay t.length rec) (ops : List Operator)
    (h : CString.Holds s.mem p t) (hfuel : t.length < fuel) :
    Stays p t s (foldOperators fuel leftFirst rec p ops) fun _ _ => True := by
  induction ops generalizing s with
  | nil => exact evalPrimary_stays hrec h hfuel
  | cons op ops ih =>
    rw [foldOperators]
    refine (foldBinary_stays hrec h hfuel op).bind fun r s₁ _ hmem₁ => ?_
    cases r with
    | some val => exact .pure trivial
    | none => exact ih (hmem₁ rfl ▸ h)

/-- One evaluation, if those of shorter strings stay in them. -/
theorem evalBody_stays (hrec : CallsStay t.length rec) (h : CString.Holds s.mem p t)
    (hfuel : t.length < fuel) :
    Stays p t s (evalBody fuel leftFirst rec p) fun _ _ => True := by
  rw [evalBody]
  refine (InMemory.Silent.enter _ (.refl p t) h).stays.bind fun _ s₁ _ hmem₁ => ?_
  refine (foldComparisons_stays hrec (hmem₁ ▸ h) hfuel).bind fun r s₂ _ hmem₂ => ?_
  cases r with
  | some val => exact .pure trivial
  | none =>
    have h₂ : CString.Holds s₂.mem p t := hmem₂ rfl ▸ hmem₁ ▸ h
    refine (strchr_silent h₂ hfuel 61).stays.bind ?_
    rintro r s₃ - ⟨hmem₃, ⟨-, rfl⟩ | ⟨before, after, -, hcut, rfl⟩⟩
    · exact foldOperators_stays hrec _ (hmem₃ ▸ h₂) hfuel
    · have h₃ : CString.Holds s₃.mem p t := hmem₃ ▸ h₂
      have hlength := hcut.length_eq
      have hpos := hcut.op_pos
      refine (InMemory.Silent.cut hcut h₃).stays.bind ?_
      rintro _ s₄ - ⟨hbefore, hafter⟩
      refine ((hrec _ after s₄ hafter (by omega)).part (hcut.after_part p)).bind ?_
      intro val s₅ _ hran
      -- the left-hand side is still there
      have hbefore' := hran.2.holds hbefore (.inl (by omega))
      have hassign : Stays p before s₅ (evalAssign fuel leftFirst rec p val) fun _ _ => True :=
        evalAssign_stays (hrec.mono (by omega)) hbefore' (by omega) val
      exact (hassign.part (hcut.before_part p)).bind fun _ s₆ _ _ => .pure trivial

/-- By induction on the depth, which exceeds the length of the string. -/
theorem eval_stays (fuel : ℕ) : CallsStay (τ := τ) fuel (eval leftFirst fuel) := by
  induction fuel with
  | zero => exact fun q u s _ hlt => absurd hlt (Nat.not_lt_zero _)
  | succ fuel ih =>
    intro q u s h hlt
    exact evalBody_stays (ih.mono (Nat.le_of_lt_succ hlt)) h hlt

end

/-! ## More fuel -/

section
variable {τ : Type} {fuel : ℕ} {leftFirst : BitVec 8 → Bool} {rec rec' : ℕ → PlaceM τ (BitVec 64)}

/-- The program does not depend on how much fuel is left. -/
abbrev Refuel {α : Type} (m n : PlaceM τ α) : Prop := Refuels Crash.outOfFuel m n

instance string_refuel (expr : ℕ) : Refuel (τ := τ) (string fuel expr) (string (fuel + 1) expr) :=
  InMemory.readString_refuels _ _ _

instance strchr_refuel (expr : ℕ) (c : BitVec 8) :
    Refuel (τ := τ) (strchr fuel expr c) (strchr (fuel + 1) expr c) := by
  unfold strchr
  infer_instance

instance matchBinary_refuel (expr : ℕ) (op : Text) :
    Refuel (τ := τ) (matchBinary fuel expr op) (matchBinary (fuel + 1) expr op) :=
  (string_refuel expr).seq fun _ => .same

variable [hrec : ∀ q, Refuel (rec q) (rec' q)]

instance bothSides_refuel (c : BitVec 8) (expr p : ℕ) :
    Refuel (bothSides leftFirst rec c expr p) (bothSides leftFirst rec' c expr p) := by
  unfold bothSides
  infer_instance

instance foldComparisons_refuel (expr : ℕ) :
    Refuel (foldComparisons fuel leftFirst rec expr)
      (foldComparisons (fuel + 1) leftFirst rec' expr) := by
  refine Refuels.same.seq fun _ => (matchBinary_refuel expr _).seq fun r => ?_
  cases r with
  | some p => exact (bothSides_refuel 61 expr p).seq fun _ => .same
  | none =>
    refine (matchBinary_refuel expr _).seq fun r => ?_
    cases r with
    | some p => exact (bothSides_refuel 33 expr p).seq fun _ => .same
    | none => exact .same

instance foldBinary_refuel (expr : ℕ) (op : Operator) :
    Refuel (foldBinary fuel rec expr op) (foldBinary (fuel + 1) rec' expr op) := by
  refine Refuels.same.seq fun _ => (strchr_refuel expr _).seq fun r => ?_
  cases r with
  | none => exact .same
  | some p =>
    dsimp only
    infer_instance

variable [Target τ]

instance evalAddress_refuel (expr : ℕ) :
    Refuel (evalAddress fuel leftFirst rec expr) (evalAddress (fuel + 1) leftFirst rec' expr) := by
  refine (strchr_refuel expr _).seq fun r => ?_
  cases r with
  | some p =>
    exact Refuels.same.seq fun _ => (bothSides_refuel 58 expr (p + 1)).seq fun _ => .same
  | none =>
    dsimp only
    infer_instance

instance evalMem_refuel (expr : ℕ) (mode : EvalMode) :
    Refuel (evalMem fuel leftFirst rec expr mode) (evalMem (fuel + 1) leftFirst rec' expr mode) :=
  Refuels.same.seq fun _ => (evalAddress_refuel expr).seq fun _ => .same

instance evalAssign_refuel (expr : ℕ) (val : BitVec 64) :
    Refuel (evalAssign fuel leftFirst rec expr val)
      (evalAssign (fuel + 1) leftFirst rec' expr val) := by
  unfold evalAssign
  infer_instance

instance evalDollar_refuel (expr : ℕ) :
    Refuel (τ := τ) (evalDollar fuel expr) (evalDollar (fuel + 1) expr) := by
  unfold evalDollar
  infer_instance

instance evalPrimary_refuel (expr : ℕ) :
    Refuel (evalPrimary fuel leftFirst rec expr) (evalPrimary (fuel + 1) leftFirst rec' expr) := by
  have hliteral : Refuel (τ := τ)
      (do match Text.strtoul 0 (← string fuel expr) with
        | some val => return val
        | none => do
          InMemory.onRest (flagError 0x20)
          return 0)
      (do match Text.strtoul 0 (← string (fuel + 1) expr) with
        | some val => return val
        | none => do
          InMemory.onRest (flagError 0x20)
          return 0) := (string_refuel expr).seq fun _ => .same
  unfold evalPrimary
  infer_instance

instance foldOperators_refuel (expr : ℕ) (ops : List Operator) :
    Refuel (foldOperators fuel leftFirst rec expr ops)
      (foldOperators (fuel + 1) leftFirst rec' expr ops) := by
  induction ops with
  | nil => exact evalPrimary_refuel expr
  | cons op ops ih =>
    refine (foldBinary_refuel expr op).seq fun r => ?_
    cases r with
    | some val => exact .same
    | none => exact ih

instance evalBody_refuel (expr : ℕ) :
    Refuel (evalBody fuel leftFirst rec expr) (evalBody (fuel + 1) leftFirst rec' expr) := by
  refine Refuels.same.seq fun _ => (foldComparisons_refuel expr).seq fun r => ?_
  cases r with
  | some val => exact .same
  | none =>
    refine (strchr_refuel expr _).seq fun r => ?_
    cases r with
    | some p =>
      dsimp only
      infer_instance
    | none => exact foldOperators_refuel expr _

omit hrec in
theorem eval_refuel (fuel expr : ℕ) :
    Refuel (τ := τ) (eval leftFirst fuel expr) (eval leftFirst (fuel + 1) expr) := by
  induction fuel generalizing expr with
  | zero => exact Refuels.throw
  | succ fuel ih => exact evalBody_refuel expr

omit hrec in
/-- What ended with some fuel ends the same with more. -/
theorem eval_more {n m expr : ℕ} {s : InMemory Evaluator (Session τ)}
    (h : ∀ u, eval leftFirst n expr s ≠ .error .outOfFuel u) (hle : n ≤ m) :
    eval leftFirst m expr s = eval leftFirst n expr s := by
  induction m, hle using Nat.le_induction with
  | base => rfl
  | succ m _ ih =>
    rw [← ih]
    exact (eval_refuel m expr).eq fun u hu => h u (ih ▸ hu)

end

/-! ## Evaluating a string -/

/-- For every string and all symbols, and in whichever order a compiler evaluates two sides, the
evaluation ends, and a depth of recursion beyond the length of the string is not reached. All that
is read is in the string or is its zero, all that is written is in the string, and every call is
for a part of it. -/
theorem eval_in_place {τ : Type} [Target τ] (leftFirst : BitVec 8 → Bool) {p : ℕ} {t : CString}
    {s : InMemory Evaluator (Session τ)} (h : CString.Holds s.mem p t) :
    ∃ r, (∀ fuel > t.length, eval leftFirst fuel p s = r) ∧
      (∀ u, r ≠ .error .outOfFuel u) ∧ InMemory.Ran p t s (finalState r) := by
  have hstays : Stays p t s (eval leftFirst (t.length + 1) p) fun _ _ => True :=
    eval_stays (t.length + 1) p t s h (Nat.lt_succ_self _)
  rw [Stays, InMemory.Stays] at hstays
  have hends : ∀ u, eval leftFirst (t.length + 1) p s ≠ .error .outOfFuel u := by
    intro u hu
    rw [hu] at hstays
    exact Bool.false_ne_true hstays.2
  refine ⟨eval leftFirst (t.length + 1) p s, fun fuel hfuel => eval_more hends hfuel, hends, ?_⟩
  cases hr : eval leftFirst (t.length + 1) p s with
  | ok val u =>
    rw [hr] at hstays
    exact hstays.1
  | error e u =>
    rw [hr] at hstays
    exact hstays.1

/-- `a:1=&$2+3` at the start of a memory. -/
def placeText : CString := ⟨Text.ofString "a:1=&$2+3", by decide⟩

def placeStart : InMemory Evaluator (Session FlatTarget) where
  rest := ⟨⟨0, fun _ => 0⟩, 0, fun _ => 0, 0, 0⟩
  mem := placeText.copy 0 fun _ => 0xff
  log := []

theorem eval_in_place_assignment :
    ∃ r, (∀ fuel > placeText.length, eval (fun _ => false) fuel 0 placeStart = r) ∧
      (∀ u, r ≠ .error .outOfFuel u) ∧ InMemory.Ran 0 placeText placeStart (finalState r) :=
  eval_in_place (s := placeStart) (fun _ => false) (CString.copy_holds 0 placeText fun _ => 0xff)

end InPlace

end Exec09.Debugger
