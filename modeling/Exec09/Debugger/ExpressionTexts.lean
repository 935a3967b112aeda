import Exec09.Debugger.ExpressionBuffer

/-! # The evaluator on texts is the evaluator in place

The text that `eval` returns as the one it leaves behind is the string that is
left in the buffer, if the left side of every operator is evaluated first.
-/
namespace Exec09.Debugger.InPlace
open Foundation

section
variable {τ : Type} {fuel p : ℕ} {t : CString} {s : InMemory Evaluator (Session τ)}

/-- The string that is left at the place, which is not longer than the one that stood there. -/
def LeftAt (q : ℕ) (u : CString) (left : Text) (s : InMemory Evaluator (Session τ)) : Prop :=
  ∃ v : CString, v.bytes = left ∧ v.length ≤ u.length ∧ CString.Holds s.mem q v

/-- The value and the text that is left. -/
def ValueAt (q : ℕ) (u : CString) (val : BitVec 64) (w : Evaluated)
    (s : InMemory Evaluator (Session τ)) : Prop := val = w.1 ∧ LeftAt q u w.2 s

/-- The calls for strings shorter than `n` do what those for their texts do. -/
def CallsFollow (n : ℕ) (rec : ℕ → PlaceM τ (BitVec 64)) (rec' : Text → EvalM τ Evaluated) : Prop :=
  ∀ q u s, CString.Holds s.mem q u → u.length < n → InMemory.Follows s (rec q) (rec' u.bytes)
    fun val w s' => ValueAt q u val w s' ∧ InMemory.Ran q u s s'

variable {rec : ℕ → PlaceM τ (BitVec 64)} {rec' : Text → EvalM τ Evaluated}

theorem CallsFollow.mono {m n : ℕ} (h : CallsFollow n rec rec') (hle : m ≤ n) :
    CallsFollow m rec rec' := fun q u s hu hlt => h q u s hu (hlt.trans_le hle)

theorem LeftAt.congr {left : Text} {s' : InMemory Evaluator (Session τ)} (h : LeftAt p t left s)
    (hmem : s'.mem = s.mem) : LeftAt p t left s' := by
  rwa [LeftAt, hmem]

theorem leftAt_same (h : CString.Holds s.mem p t) : LeftAt p t t.bytes s :=
  ⟨t, rfl, le_rfl, h⟩

/-- A character before the text that is left. -/
theorem leftAt_cons {c : BitVec 8} (hc : c ≠ 0) {u : CString} (hlength : t.length = u.length + 1)
    (hbyte : s.mem p = c) {left : Text} (h : LeftAt (p + 1) u left s) :
    LeftAt p t (c :: left) s := by
  obtain ⟨v, rfl, hle, hholds⟩ := h
  have hnoNul : 0 ∉ c :: v.bytes := by
    intro hzero
    rcases List.mem_cons.mp hzero with heq | hrest
    · exact hc heq.symm
    · exact v.noNul hrest
  refine ⟨⟨c :: v.bytes, hnoNul⟩, rfl, ?_, ?_⟩
  · rw [hlength]
    exact Nat.succ_le_succ hle
  · intro i hi
    cases i with
    | zero => exact hbyte
    | succ i =>
      have hnext := hholds i (Nat.le_of_succ_le_succ hi)
      rw [show p + (i + 1) = p + 1 + i by omega, hnext]
      rfl

/-- Both sides on their texts, and what is left of the first. -/
def bothTexts (rec' : Text → EvalM τ Evaluated) (sides : Text × Text) :
    EvalM τ ((BitVec 64 × BitVec 64) × Text) := do
  let (val1, left) ← rec' sides.1
  let (val2, _) ← rec' sides.2
  return ((val1, val2), left)

theorem foldSides_eq (op : BitVec 64 → BitVec 64 → EvalM τ (BitVec 64)) (sides : Text × Text) :
    foldSides rec' op sides = do
      let w ← bothTexts rec' sides
      return (← op w.1.1 w.1.2, w.2) := by
  simp only [foldSides, bothTexts, bind_assoc, pure_bind]

theorem bothSides_follow (hrec : CallsFollow t.length rec rec') (c : BitVec 8)
    {before after : CString} {op : Text} (hcut : CString.Cut t before op after)
    (hbefore : CString.Holds s.mem p before)
    (hafter : CString.Holds s.mem (p + before.length + op.length) after) :
    InMemory.Follows s (bothSides (fun _ => true) rec c p (p + before.length + op.length))
      (bothTexts rec' (before.bytes, after.bytes)) fun vals w s' =>
        vals = w.1 ∧ LeftAt p before w.2 s' := by
  have hlength := hcut.length_eq
  have hpos := hcut.op_pos
  rw [bothSides, if_pos rfl]
  refine (hrec p before s hbefore (by omega)).bind ?_
  rintro val1 ⟨val1', left⟩ s₁ ⟨⟨rfl, v, rfl, hv, hleft⟩, hran₁⟩
  have hafter₁ := hran₁.holds hafter (.inr (by omega))
  refine (hrec _ after s₁ hafter₁ (by omega)).bind ?_
  rintro val2 ⟨val2', -⟩ s₂ ⟨⟨rfl, -⟩, hran₂⟩
  exact .pure ⟨rfl, v, rfl, hv, hran₂.holds hleft (.inl (by omega))⟩

/-- What is left of the part before an operator is not longer than the whole. -/
theorem LeftAt.cut {before after : CString} {op left : Text} (h : LeftAt p before left s)
    (hcut : CString.Cut t before op after) : LeftAt p t left s := by
  obtain ⟨v, hv, hlength, hholds⟩ := h
  exact ⟨v, hv, hlength.trans (by rw [hcut.length_eq]; omega), hholds⟩

/-- A comparison whose sides are found. -/
theorem comparison_follow (hrec : CallsFollow t.length rec rec') {c : BitVec 8}
    {before after : CString} {op : Text} (hcut : CString.Cut t before op after)
    (hbefore : CString.Holds s.mem p before)
    (hafter : CString.Holds s.mem (p + before.length + op.length) after)
    (compare : BitVec 64 → BitVec 64 → BitVec 64) :
    InMemory.Follows s
      (do
        let (a, b) ← bothSides (fun _ => true) rec c p (p + before.length + op.length)
        return some (compare a b))
      (foldSides rec' (fun a b => pure (compare a b)) (before.bytes, after.bytes))
      fun r w s' => r = some w.1 ∧ LeftAt p t w.2 s' := by
  rw [foldSides_eq]
  refine (bothSides_follow hrec c hcut hbefore hafter).bind ?_
  rintro ⟨a, b⟩ ⟨⟨a', b'⟩, left⟩ s' ⟨hvals, hleft⟩
  cases hvals
  simp only [pure_bind]
  exact .pure ⟨rfl, hleft.cut hcut⟩

/-- What `fold_comparisons` or `fold_binary` does to the text, if it finds an operator. -/
def Folds (p : ℕ) (t : CString) (s : InMemory Evaluator (Session τ))
    (m : PlaceM τ (Option (BitVec 64))) : Option (EvalM τ Evaluated) → Prop
  | some n => InMemory.Follows s m n fun r w s' => r = some w.1 ∧ LeftAt p t w.2 s'
  | none => InMemory.Silent p t s m fun r s' => r = none ∧ s'.mem = s.mem

/-- A step before it that leaves the memory. -/
theorem Folds.silent {α : Type} {m : PlaceM τ α} {Q : α → InMemory Evaluator (Session τ) → Prop}
    {f : α → PlaceM τ (Option (BitVec 64))} {o : Option (EvalM τ Evaluated)}
    (hm : InMemory.Silent p t s m fun a s' => Q a s' ∧ s'.mem = s.mem)
    (hf : ∀ a s', Q a s' → s'.mem = s.mem → Folds p t s' (f a) o) :
    Folds p t s (m >>= f) o := by
  cases o with
  | some n => exact InMemory.Follows.silent hm fun a s' _ hq => hf a s' hq.1 hq.2
  | none =>
    refine hm.bind fun a s' _ hq => ?_
    obtain ⟨r, s'', hrun, hrest, hran, hr, hmem⟩ := hf a s' hq.1 hq.2
    exact ⟨r, s'', hrun, hrest, hran, hr, hmem.trans hq.2⟩

theorem Folds.enter {f : Evaluator} {m : PlaceM τ (Option (BitVec 64))}
    {o : Option (EvalM τ Evaluated)} (h : CString.Holds s.mem p t)
    (hm : ∀ s', CString.Holds s'.mem p t → Folds p t s' m o) :
    Folds p t s (do InMemory.enter f p; m) o := by
  have henter := InMemory.Silent.enter (ε := Crash) f (.refl p t) h
  refine Folds.silent (henter.imp fun _ _ hmem => ⟨hmem, hmem⟩) fun _ s' hmem _ => ?_
  exact hm s' (hmem ▸ h)

/-- Go on without the operator. -/
theorem Folds.otherwise {m : PlaceM τ (Option (BitVec 64))} {k : PlaceM τ (BitVec 64)}
    {o : Option (EvalM τ Evaluated)} {n : EvalM τ Evaluated} (h : CString.Holds s.mem p t)
    (hm : Folds p t s m o)
    (hk : ∀ s', CString.Holds s'.mem p t → InMemory.Follows s' k n (ValueAt p t)) :
    InMemory.Follows s (m >>= fun r => r.elim k pure) (o.getD n) (ValueAt p t) := by
  cases o with
  | some n' =>
    have hstep : InMemory.Follows s (m >>= fun r => r.elim k pure) (n' >>= pure) (ValueAt p t) := by
      refine InMemory.Follows.bind hm ?_
      rintro r w s' ⟨rfl, hleft⟩
      exact .pure ⟨rfl, hleft⟩
    rwa [bind_pure] at hstep
  | none =>
    refine .silent hm ?_
    rintro r s' - ⟨rfl, hmem⟩
    exact hk s' (hmem ▸ h)

theorem matchBinary_none (h : CString.Holds s.mem p t) (hfuel : t.length < fuel) {op : Text}
    (hop : op ≠ []) (hsplit : Text.splitText op t.bytes = none) :
    InMemory.Silent p t s (matchBinary fuel p op) fun r s' => r = none ∧ s'.mem = s.mem := by
  refine (matchBinary_silent h hfuel op hop).imp ?_
  rintro r s' (⟨-, hr⟩ | ⟨before, after, hsome, -⟩)
  · exact hr
  · rw [hsplit] at hsome
    cases hsome

theorem matchBinary_some (h : CString.Holds s.mem p t) (hfuel : t.length < fuel) {op : Text}
    (hop : op ≠ []) {sides : Text × Text} (hsplit : Text.splitText op t.bytes = some sides) :
    InMemory.Silent p t s (matchBinary fuel p op) fun r s' => ∃ before after : CString,
      sides = (before.bytes, after.bytes) ∧ CString.Cut t before op after ∧
        r = some (p + before.length + op.length) ∧ CString.Holds s'.mem p before ∧
          CString.Holds s'.mem (p + before.length + op.length) after := by
  refine (matchBinary_silent h hfuel op hop).imp ?_
  rintro r s' (⟨hnone, -⟩ | ⟨before, after, hsome, hparts⟩)
  · rw [hsplit] at hnone
    cases hnone
  · rw [hsplit] at hsome
    exact ⟨before, after, Option.some.inj hsome, hparts⟩

theorem strchr_none (h : CString.Holds s.mem p t) (hfuel : t.length < fuel) {c : BitVec 8}
    (hsplit : Text.splitChar c t.bytes = none) :
    InMemory.Silent p t s (strchr fuel p c) fun r s' => r = none ∧ s'.mem = s.mem := by
  refine (strchr_silent h hfuel c).imp ?_
  rintro r s' ⟨hmem, ⟨-, hr⟩ | ⟨before, after, hsome, -⟩⟩
  · exact ⟨hr, hmem⟩
  · rw [hsplit] at hsome
    cases hsome

theorem strchr_some (h : CString.Holds s.mem p t) (hfuel : t.length < fuel) {c : BitVec 8}
    {sides : Text × Text} (hsplit : Text.splitChar c t.bytes = some sides) :
    InMemory.Silent p t s (strchr fuel p c) fun r s' => (∃ before after : CString,
      sides = (before.bytes, after.bytes) ∧ CString.Cut t before [c] after ∧
        r = some (p + before.length)) ∧ s'.mem = s.mem := by
  refine (strchr_silent h hfuel c).imp ?_
  rintro r s' ⟨hmem, ⟨hnone, -⟩ | ⟨before, after, hsome, hcut, hr⟩⟩
  · rw [hsplit] at hnone
    cases hnone
  · rw [hsplit] at hsome
    exact ⟨⟨before, after, Option.some.inj hsome, hcut, hr⟩, hmem⟩

def comparisonTexts (rec' : Text → EvalM τ Evaluated) (text : Text) : Option (EvalM τ Evaluated) :=
  match Text.splitText (Text.ofString "==") text with
  | some sides => some (foldSides rec' (fun a b => pure (if a = b then 1 else 0)) sides)
  | none => (Text.splitText (Text.ofString "!=") text).map
      (foldSides rec' fun a b => pure (if a ≠ b then 1 else 0))

theorem foldComparisons_folds (hrec : CallsFollow t.length rec rec')
    (h : CString.Holds s.mem p t) (hfuel : t.length < fuel) :
    Folds p t s (foldComparisons fuel (fun _ => true) rec p) (comparisonTexts rec' t.bytes) := by
  rw [foldComparisons, comparisonTexts]
  refine Folds.enter h fun s₁ h₁ => ?_
  cases hequal : Text.splitText (Text.ofString "==") t.bytes with
  | some sides =>
    refine InMemory.Follows.silent (matchBinary_some h₁ hfuel (by decide) hequal) ?_
    rintro r s₂ - ⟨before, after, rfl, hcut, rfl, hbefore, hafter⟩
    exact comparison_follow hrec hcut hbefore hafter fun a b => if a = b then 1 else 0
  | none =>
    refine Folds.silent (matchBinary_none h₁ hfuel (by decide) hequal) ?_
    rintro r s₂ rfl hmem₂
    have h₂ : CString.Holds s₂.mem p t := hmem₂ ▸ h₁
    cases hdiffer : Text.splitText (Text.ofString "!=") t.bytes with
    | some sides =>
      refine InMemory.Follows.silent (matchBinary_some h₂ hfuel (by decide) hdiffer) ?_
      rintro r s₃ - ⟨before, after, rfl, hcut, rfl, hbefore, hafter⟩
      exact comparison_follow hrec hcut hbefore hafter fun a b => if a ≠ b then 1 else 0
    | none =>
      refine Folds.silent (matchBinary_none h₂ hfuel (by decide) hdiffer) ?_
      rintro r s₃ rfl -
      exact InMemory.Silent.pure ⟨rfl, rfl⟩

def binaryTexts (rec' : Text → EvalM τ Evaluated) (op : Operator) (text : Text) :
    Option (EvalM τ Evaluated) :=
  (binarySides op.char text).map (foldSides rec' fun val1 val2 => op.apply val1 val2)

theorem foldBinary_folds (hrec : CallsFollow t.length rec rec') (op : Operator)
    (h : CString.Holds s.mem p t) (hfuel : t.length < fuel) :
    Folds p t s (foldBinary fuel rec p op) (binaryTexts rec' op t.bytes) := by
  rw [foldBinary, binaryTexts, binarySides]
  refine Folds.enter h fun s₁ h₁ => ?_
  cases hsplit : Text.splitChar op.char t.bytes with
  | none =>
    refine Folds.silent (strchr_none h₁ hfuel hsplit) ?_
    rintro r s₂ rfl -
    exact InMemory.Silent.pure ⟨rfl, rfl⟩
  | some sides =>
    refine Folds.silent (strchr_some h₁ hfuel hsplit) ?_
    rintro r s₂ ⟨before, after, rfl, hcut, rfl⟩ hmem₂
    have h₂ : CString.Holds s₂.mem p t := hmem₂ ▸ h₁
    rw [Option.filter_some]
    by_cases hunary : before.bytes = []
    · have hfirst : p + before.length = p := by rw [CString.length, hunary, List.length_nil]; rfl
      rw [if_neg (by simpa using hunary)]
      dsimp only
      rw [if_pos hfirst]
      exact InMemory.Silent.pure ⟨rfl, rfl⟩
    · have hfirst : p + before.length ≠ p := by
        have := List.length_pos_of_ne_nil hunary
        rw [CString.length]
        omega
      rw [if_pos (by simpa using hunary)]
      dsimp only
      rw [if_neg hfirst]
      refine InMemory.Follows.silent (InMemory.Silent.cut hcut h₂) ?_
      rintro _ s₃ - ⟨hbefore, hafter⟩
      rw [bothSides_inOrder op.char, foldSides_eq]
      refine (bothSides_follow hrec op.char hcut hbefore hafter).bind ?_
      rintro ⟨val1, val2⟩ ⟨vals, left⟩ s₄ ⟨rfl, hleft⟩
      refine (InMemory.Follows.onRest (op.apply val1 val2)).bind ?_
      rintro val val' s₅ ⟨rfl, hmem₅⟩
      obtain ⟨v, hv, hle, hholds⟩ := hleft.cut hcut
      exact .pure ⟨rfl, v, hv, hle, hmem₅ ▸ hholds⟩

/-- The value of a program that has nothing to do with the memory. -/
theorem onRest_follow {m : EvalM τ (BitVec 64)} {left : Text} (h : LeftAt p t left s) :
    InMemory.Follows s (InMemory.onRest m) (do return (← m, left)) (ValueAt p t) :=
  (InMemory.Follows.onRest m).map (fun val => (val, left)) fun _ _ _ hq => ⟨hq.1, h.congr hq.2⟩

variable [Target τ]

/-- The address, and the text that is left. -/
theorem evalAddress_follow (hrec : CallsFollow t.length rec rec')
    (hsame : startsName t.bytes = false → CallsFollow (t.length + 1) rec rec')
    (h : CString.Holds s.mem p t) (hfuel : t.length < fuel) :
    InMemory.Follows s (evalAddress fuel (fun _ => true) rec p)
      (Debugger.evalAddress rec' t.bytes) (ValueAt p t) := by
  rw [evalAddress, Debugger.evalAddress]
  cases hsplit : Text.splitChar 58 t.bytes with
  | some sides =>
    refine InMemory.Follows.silent (strchr_some h hfuel hsplit) ?_
    rintro r s₁ - ⟨⟨before, after, rfl, hcut, rfl⟩, hmem₁⟩
    refine InMemory.Follows.silent (InMemory.Silent.cut hcut (hmem₁ ▸ h)) ?_
    rintro _ s₂ - ⟨hbefore, hafter⟩
    have htexts : (do
        let (devno, left) ← rec' before.bytes
        let (phyaddr, _) ← rec' after.bytes
        return (makeAddr devno phyaddr, left)) = do
          let w ← bothTexts rec' (before.bytes, after.bytes)
          return (makeAddr w.1.1 w.1.2, w.2) := by
      simp only [bothTexts, bind_assoc, pure_bind]
    dsimp only
    rw [htexts]
    refine (bothSides_follow hrec 58 hcut hbefore hafter).bind ?_
    rintro ⟨devno, phyaddr⟩ ⟨vals, left⟩ s₃ ⟨rfl, hleft⟩
    exact .pure ⟨rfl, hleft.cut hcut⟩
  | none =>
    refine InMemory.Follows.silent (strchr_none h hfuel hsplit) ?_
    rintro r s₁ - ⟨rfl, hmem₁⟩
    have h₁ : CString.Holds s₁.mem p t := hmem₁ ▸ h
    refine InMemory.Follows.silent (InMemory.Silent.readFirst (.refl p t) h₁) ?_
    rintro c s₂ - ⟨rfl, hmem₂⟩
    have h₂ : CString.Holds s₂.mem p t := hmem₂ ▸ h₁
    rw [← startsName_eq]
    cases hname : startsName t.bytes with
    | true =>
      refine InMemory.Follows.silent (string_silent (.refl p t) h₂ hfuel) ?_
      rintro name s₃ - ⟨rfl, hmem₃⟩
      simp only [if_true]
      have hleft := leftAt_same (hmem₃ ▸ h₂ : CString.Holds s₃.mem p t)
      rw [InMemory.Follows, InMemory.onRest, symbolValue, run_bind_ok run_get, run_bind_ok run_get]
      cases Target.symbol t.bytes s₃.rest.target with
      | some val => exact ⟨rfl, rfl, hleft⟩
      | none => exact ⟨rfl, rfl, hleft⟩
    | false =>
      refine (hsame hname p t s₂ h₂ (Nat.lt_succ_self _)).bind ?_
      rintro addr ⟨addr', left⟩ s₃ ⟨⟨rfl, hleft⟩, -⟩
      refine InMemory.Follows.get.bind ?_
      rintro a b s₄ ⟨rfl, rfl⟩
      exact .pure ⟨rfl, hleft⟩

theorem evalMem_follow (hrec : CallsFollow t.length rec rec')
    (hsame : startsName t.bytes = false → CallsFollow (t.length + 1) rec rec')
    (h : CString.Holds s.mem p t) (hfuel : t.length < fuel) (mode : EvalMode) :
    InMemory.Follows s (evalMem fuel (fun _ => true) rec p mode)
      (Debugger.evalMem rec' t.bytes mode) (ValueAt p t) := by
  rw [evalMem, Debugger.evalMem]
  refine InMemory.Follows.silent (InMemory.Silent.enter _ (.refl p t) h) fun _ s₁ _ hmem₁ => ?_
  refine (evalAddress_follow hrec hsame (hmem₁ ▸ h) hfuel).bind ?_
  rintro val ⟨val', left⟩ s₂ ⟨rfl, hleft⟩
  cases mode with
  | LVALUE => exact .pure ⟨rfl, hleft⟩
  | RVALUE => exact onRest_follow hleft

theorem evalAssign_other {text : Text} (h : ∀ name, text ≠ 36 :: name) (val : BitVec 64) :
    Debugger.evalAssign rec' text val = do
      let w ← Debugger.evalMem rec' text .LVALUE
      storeByte w.1 val
      return w.2 := by
  unfold Debugger.evalAssign
  split
  · exact absurd rfl (h _)
  · simp only [storeByte, bind_assoc]
    refine bind_congr fun w => bind_congr fun s => ?_
    split <;> simp only [pure_bind]

/-- The text that is left of the left-hand side. -/
theorem evalAssign_follow (hrec : CallsFollow (t.length + 1) rec rec')
    (h : CString.Holds s.mem p t) (hfuel : t.length < fuel) (val : BitVec 64) :
    InMemory.Follows s (evalAssign fuel (fun _ => true) rec p val)
      (Debugger.evalAssign rec' t.bytes val) fun _ left s' => LeftAt p t left s' := by
  rw [evalAssign]
  refine InMemory.Follows.silent (InMemory.Silent.enter _ (.refl p t) h) fun _ s₁ _ hmem₁ => ?_
  have h₁ : CString.Holds s₁.mem p t := hmem₁ ▸ h
  refine InMemory.Follows.silent (InMemory.Silent.readFirst (.refl p t) h₁) ?_
  rintro c s₂ - ⟨rfl, hmem₂⟩
  have h₂ : CString.Holds s₂.mem p t := hmem₂ ▸ h₁
  by_cases hdollar : t.byte 0 = 36
  · obtain ⟨u, hbytes, hlength, hu⟩ := exists_tail_of_byte hdollar (by decide)
    have htext : Debugger.evalAssign rec' t.bytes val = do
        assignVirtual u.bytes val
        return t.bytes := by rw [hbytes]; rfl
    rw [if_pos hdollar, htext]
    refine InMemory.Follows.silent (string_silent (hu p).1 ((hu p).2 _ h₂) (by omega)) ?_
    rintro name s₃ - ⟨rfl, hmem₃⟩
    have hleft := leftAt_same (hmem₃ ▸ h₂ : CString.Holds s₃.mem p t)
    exact (InMemory.Follows.onRest (assignVirtual u.bytes val)).map (fun _ => t.bytes)
      fun _ _ _ hq => hleft.congr hq.2
  · have hother : ∀ name, t.bytes ≠ 36 :: name := by
      intro name hbytes
      exact hdollar (by rw [CString.byte, hbytes, List.getD_cons_zero])
    rw [if_neg hdollar, evalAssign_other hother]
    refine (evalMem_follow (hrec.mono (Nat.le_succ _)) (fun _ => hrec) h₂ hfuel .LVALUE).bind ?_
    rintro dst ⟨dst', left⟩ s₃ ⟨rfl, hleft⟩
    exact (InMemory.Follows.onRest (storeByte dst val)).map (fun _ => left)
      fun _ _ _ hq => hleft.congr hq.2

/-- The forms with a dollar. -/
theorem evalDollar_follow {u : CString}
    (hlength : t.length = u.length + 1) (hpart : CString.Part (p + 1) u p t)
    (hu : CString.Holds s.mem (p + 1) u) (h : CString.Holds s.mem p t) (hfuel : t.length < fuel) :
    InMemory.Follows s (evalDollar fuel p) (do return (← Debugger.evalDollar u.bytes, t.bytes))
      (ValueAt p t) := by
  rw [evalDollar]
  refine InMemory.Follows.silent (InMemory.Silent.readFirst hpart hu) ?_
  rintro c s₁ - ⟨rfl, hmem₁⟩
  have h₁ : CString.Holds s₁.mem p t := hmem₁ ▸ h
  have hu₁ : CString.Holds s₁.mem (p + 1) u := hmem₁ ▸ hu
  have hfuel' : u.length < fuel := by omega
  have hstring := string_silent hpart hu₁ hfuel'
  cases hname : u.bytes with
  | nil =>
    have hend : u.byte 0 = 0 := by rw [CString.byte, hname, List.getD_nil]
    rw [hend]
    exact onRest_follow (m := lastValue) (leftAt_same h₁)
  | cons c rest =>
    have hfirst : u.byte 0 = c := by rw [CString.byte, hname, List.getD_cons_zero]
    have hne : c ≠ 0 := by
      rintro rfl
      exact u.noNul (hname ▸ List.mem_cons_self)
    obtain ⟨v, rfl, hlength', hv⟩ := CString.exists_tail hname
    rw [hfirst, Debugger.evalDollar]
    by_cases hdollar : c = 36
    · rw [if_pos hdollar, if_pos hdollar]
      obtain ⟨hpart', hholds⟩ := hv (p + 1)
      refine InMemory.Follows.silent
        (string_silent (hpart'.trans hpart) (hholds _ hu₁) (by omega)) ?_
      rintro digits s₂ - ⟨rfl, hmem₂⟩
      exact onRest_follow (leftAt_same (hmem₂ ▸ h₁))
    · rw [if_neg hdollar, if_neg hdollar]
      by_cases hdigit : Text.isDigit c = true
      · rw [if_pos hdigit, if_pos hdigit]
        refine InMemory.Follows.silent hstring ?_
        rintro digits s₂ - ⟨rfl, hmem₂⟩
        rw [hname]
        exact onRest_follow (leftAt_same (hmem₂ ▸ h₁))
      · rw [if_neg hdigit, if_neg hdigit, if_neg hne]
        refine InMemory.Follows.silent hstring ?_
        rintro name s₂ - ⟨rfl, hmem₂⟩
        rw [hname]
        exact onRest_follow (leftAt_same (hmem₂ ▸ h₁))

variable (rec') in
theorem evalPrimary_other {text : Text} (hdollar : ∀ name, text ≠ 36 :: name)
    (hplace : ∀ place, text ≠ 38 :: place) :
    (startsName text = true →
        Debugger.evalPrimary rec' text = Debugger.evalMem rec' text .RVALUE) ∧
      (startsName text = false →
        (∀ val, Text.strtoul 0 text = some val →
          Debugger.evalPrimary rec' text = pure (val, text)) ∧
        (Text.strtoul 0 text = none → Debugger.evalPrimary rec' text = do
          flagError 0x20
          return (0, text))) := by
  unfold Debugger.evalPrimary
  split
  · exact absurd rfl (hdollar _)
  · exact absurd rfl (hplace _)
  · refine ⟨fun hname => if_pos hname, fun hname => ?_⟩
    rw [if_neg (by simp [hname])]
    exact ⟨fun val hval => by rw [hval], fun hnone => by rw [hnone]⟩

theorem evalPrimary_follow (hstay : CallsStay t.length rec) (hrec : CallsFollow t.length rec rec')
    (h : CString.Holds s.mem p t) (hfuel : t.length < fuel) :
    InMemory.Follows s (evalPrimary fuel (fun _ => true) rec p)
      (Debugger.evalPrimary rec' t.bytes) (ValueAt p t) := by
  rw [evalPrimary]
  refine InMemory.Follows.silent (InMemory.Silent.readFirst (.refl p t) h) ?_
  rintro c s₁ - ⟨rfl, hmem₁⟩
  have h₁ : CString.Holds s₁.mem p t := hmem₁ ▸ h
  by_cases hdollar : t.byte 0 = 36
  · obtain ⟨u, hbytes, hlength, hu⟩ := exists_tail_of_byte hdollar (by decide)
    have htext : Debugger.evalPrimary rec' t.bytes = do
        return (← Debugger.evalDollar u.bytes, t.bytes) := by rw [hbytes]; rfl
    rw [if_pos hdollar, htext]
    exact evalDollar_follow hlength (hu p).1 ((hu p).2 _ h₁) h₁ hfuel
  by_cases hplace : t.byte 0 = 38
  · obtain ⟨u, hbytes, hlength, hu⟩ := exists_tail_of_byte hplace (by decide)
    have htext : Debugger.evalPrimary rec' t.bytes = do
        let w ← Debugger.evalMem rec' u.bytes .LVALUE
        return (w.1, 38 :: w.2) := by rw [hbytes]; rfl
    rw [if_neg hdollar, if_pos hplace, htext]
    have hu₁ := (hu p).2 _ h₁
    have hshort : CallsFollow (u.length + 1) rec rec' := hrec.mono (by omega)
    have hstays : Stays (p + 1) u s₁ (evalMem fuel (fun _ => true) rec (p + 1) .LVALUE)
        fun _ _ => True :=
      evalMem_stays (hstay.mono (by omega)) (fun _ => hstay.mono (by omega)) hu₁ (by omega) .LVALUE
    have hmem := (evalMem_follow (hshort.mono (Nat.le_succ _)) (fun _ => hshort) hu₁ (by omega)
      .LVALUE).stays hstays
    refine hmem.map (fun w => (w.1, 38 :: w.2)) ?_
    rintro val ⟨val', left⟩ s₂ ⟨⟨rfl, hleft⟩, hran⟩
    have hbyte : s₂.mem p = 38 := by
      rw [hran.frame p (.inl (Nat.lt_succ_self p)), h₁.first, hplace]
    exact ⟨rfl, leftAt_cons (by decide) hlength hbyte hleft⟩
  have hother {c : BitVec 8} (hc : t.byte 0 ≠ c) (b : Text) : t.bytes ≠ c :: b := by
    intro hbytes
    exact hc (by rw [CString.byte, hbytes, List.getD_cons_zero])
  obtain ⟨hnamed, hliteral⟩ := evalPrimary_other rec' (hother hdollar) (hother hplace)
  rw [if_neg hdollar, if_neg hplace, ← startsName_eq]
  cases hname : startsName t.bytes with
  | true =>
    rw [hnamed hname]
    simp only [if_true]
    refine evalMem_follow hrec (fun hnot => ?_) h₁ hfuel .RVALUE
    rw [hname] at hnot
    cases hnot
  | false =>
    obtain ⟨hvalue, hinvalid⟩ := hliteral hname
    simp only [Bool.false_eq_true, if_false]
    refine InMemory.Follows.silent (string_silent (.refl p t) h₁ hfuel) ?_
    rintro text s₂ - ⟨rfl, hmem₂⟩
    have hleft := leftAt_same (hmem₂ ▸ h₁ : CString.Holds s₂.mem p t)
    cases hnumber : Text.strtoul 0 t.bytes with
    | some val =>
      rw [hvalue val hnumber]
      exact .pure ⟨rfl, hleft⟩
    | none =>
      rw [hinvalid hnumber]
      refine (InMemory.Follows.onRest (flagError 0x20)).bind ?_
      rintro _ _ s₃ ⟨-, hmem₃⟩
      exact .pure ⟨rfl, hleft.congr hmem₃⟩

/-- The operators in their order, and then the expression without any. -/
def operatorTexts (rec' : Text → EvalM τ Evaluated) (text : Text) :
    List Operator → EvalM τ Evaluated
  | [] => Debugger.evalPrimary rec' text
  | op :: ops => (binaryTexts rec' op text).getD (operatorTexts rec' text ops)

theorem foldOperators_follow (hstay : CallsStay t.length rec)
    (hrec : CallsFollow t.length rec rec') (ops : List Operator)
    (h : CString.Holds s.mem p t) (hfuel : t.length < fuel) :
    InMemory.Follows s (foldOperators fuel (fun _ => true) rec p ops)
      (operatorTexts rec' t.bytes ops) (ValueAt p t) := by
  induction ops generalizing s with
  | nil => exact evalPrimary_follow hstay hrec h hfuel
  | cons op ops ih =>
    have hfold : foldOperators fuel (fun _ => true) rec p (op :: ops) =
        foldBinary fuel rec p op >>= fun r =>
          r.elim (foldOperators fuel (fun _ => true) rec p ops) pure := by
      rw [foldOperators]
      refine bind_congr fun r => ?_
      cases r <;> rfl
    rw [hfold]
    exact (foldBinary_folds hrec op h hfuel).otherwise h fun s' h' => ih h'

theorem evalBody_text (text : Text) : Debugger.evalBody rec' text =
    (comparisonTexts rec' text).getD ((Text.splitChar 61 text).elim
      (operatorTexts rec' text [.plus, .minus, .star, .slash])
      fun sides => do
        let w ← rec' sides.2
        return (w.1, ← Debugger.evalAssign rec' sides.1 w.1)) := by
  unfold Debugger.evalBody comparisonTexts
  cases Text.splitText (Text.ofString "==") text with
  | some sides => rfl
  | none =>
  cases Text.splitText (Text.ofString "!=") text with
  | some sides => rfl
  | none =>
  cases Text.splitChar 61 text with
  | some sides => rfl
  | none =>
    simp only [operatorTexts, binaryTexts, Operator.char]
    cases binarySides 43 text with
    | some sides => rfl
    | none =>
    cases binarySides 45 text with
    | some sides => rfl
    | none =>
    cases binarySides 42 text with
    | some sides => rfl
    | none =>
    cases binarySides 47 text with
    | some sides => rfl
    | none => rfl

/-- An assignment, or an expression of operators. -/
def assignOr (fuel : ℕ) (rec : ℕ → PlaceM τ (BitVec 64)) (p : ℕ) (r : Option ℕ) :
    PlaceM τ (BitVec 64) :=
  r.elim (foldOperators fuel (fun _ => true) rec p [.plus, .minus, .star, .slash]) fun q => do
    InMemory.writeNul q
    let val ← rec (q + 1)
    evalAssign fuel (fun _ => true) rec p val
    return val

theorem evalBody_eq (fuel : ℕ) (rec : ℕ → PlaceM τ (BitVec 64)) (p : ℕ) :
    evalBody fuel (fun _ => true) rec p =
      InMemory.enter .eval p >>= fun _ => foldComparisons fuel (fun _ => true) rec p >>= fun r =>
        r.elim (strchr fuel p 61 >>= assignOr fuel rec p) pure := by
  rw [evalBody]
  refine bind_congr fun _ => bind_congr fun r => ?_
  cases r with
  | some val => rfl
  | none =>
    refine bind_congr fun q => ?_
    cases q <;> rfl

/-- One evaluation does what that of the text does, if those of shorter strings do. -/
theorem evalBody_follow (hstay : CallsStay t.length rec) (hrec : CallsFollow t.length rec rec')
    (h : CString.Holds s.mem p t) (hfuel : t.length < fuel) :
    InMemory.Follows s (evalBody fuel (fun _ => true) rec p) (Debugger.evalBody rec' t.bytes)
      (ValueAt p t) := by
  rw [evalBody_eq, evalBody_text]
  refine InMemory.Follows.silent (InMemory.Silent.enter _ (.refl p t) h) fun _ s₁ _ hmem₁ => ?_
  have h₁ : CString.Holds s₁.mem p t := hmem₁ ▸ h
  refine (foldComparisons_folds hrec h₁ hfuel).otherwise h₁ fun s₂ h₂ => ?_
  cases hsplit : Text.splitChar 61 t.bytes with
  | none =>
    refine InMemory.Follows.silent (strchr_none h₂ hfuel hsplit) ?_
    rintro r s₃ - ⟨rfl, hmem₃⟩
    exact foldOperators_follow hstay hrec _ (hmem₃ ▸ h₂) hfuel
  | some sides =>
    refine InMemory.Follows.silent (strchr_some h₂ hfuel hsplit) ?_
    rintro r s₃ - ⟨⟨before, after, rfl, hcut, rfl⟩, hmem₃⟩
    have h₃ : CString.Holds s₃.mem p t := hmem₃ ▸ h₂
    have hlength := hcut.length_eq
    have hpos := hcut.op_pos
    refine InMemory.Follows.silent (InMemory.Silent.cut hcut h₃) ?_
    rintro _ s₄ - ⟨hbefore, hafter⟩
    refine (hrec _ after s₄ hafter (by omega)).bind ?_
    rintro val ⟨val', right⟩ s₅ ⟨⟨rfl, -⟩, hran⟩
    have hbefore' := hran.holds hbefore (.inl (by omega))
    refine (evalAssign_follow (hrec.mono (by omega)) hbefore' (by omega) val).bind ?_
    rintro _ left s₆ hleft
    exact .pure ⟨rfl, hleft.cut hcut⟩

/-- By induction on the depth, which exceeds the length of the string. -/
theorem eval_follow (fuel : ℕ) :
    CallsFollow (τ := τ) fuel (eval (fun _ => true) fuel) (evalDepth fuel) := by
  induction fuel with
  | zero => exact fun q u s _ hlt => absurd hlt (Nat.not_lt_zero _)
  | succ fuel ih =>
    intro q u s h hlt
    have hle := Nat.le_of_lt_succ hlt
    have hstays : Stays q u s (eval (fun _ => true) (fuel + 1) q) fun _ _ => True :=
      eval_stays (fuel + 1) q u s h hlt
    have hfollow : InMemory.Follows s (eval (fun _ => true) (fuel + 1) q)
        (evalDepth (fuel + 1) u.bytes) (ValueAt q u) :=
      evalBody_follow ((eval_stays fuel).mono hle) (ih.mono hle) h hlt
    exact hfollow.stays hstays

/-- If the left side of every operator is evaluated first, the evaluation of a string does what
that of its text does: the same value, state and end, and the string that is left has the text
that is left. -/
theorem eval_follows_text {p : ℕ} {t : CString} {s : InMemory Evaluator (Session τ)}
    (h : CString.Holds s.mem p t) :
    InMemory.Follows s (eval (fun _ => true) (t.length + 1) p) (Debugger.eval t.bytes)
      (ValueAt p t) :=
  (eval_follow (t.length + 1) p t s h (Nat.lt_succ_self _)).imp fun _ _ _ hq => hq.1

end

end Exec09.Debugger.InPlace
