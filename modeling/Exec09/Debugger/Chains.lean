import Exec09.Debugger.ExpressionTree
import Exec09.Debugger.Grouping
import Mathlib.Data.Finset.Max

/-! # The value of an arithmetic expression

An expression without parentheses is a chain of numerals and operators. The tree
that `eval` runs for it is the one of `group`, so that the value is the usual one
for all operands exactly if the operators have a good shape.
-/
namespace Exec09.Debugger
open Foundation

/-! ## Expressions -/

/-- The numerals of C: decimal, octal and hexadecimal ones. -/
inductive IsNumeral : Text → ℕ → Prop
  | decimal {t : Text} (hne : t ≠ []) (hzero : t.head? ≠ some 48)
      (hdigits : ∀ c ∈ t, Text.digitIn 10 c ≠ none) : IsNumeral t (Text.value 10 (Text.digits 10 t))
  | octal {t : Text} (hdigits : ∀ c ∈ t, Text.digitIn 8 c ≠ none) :
      IsNumeral (48 :: t) (Text.value 8 (Text.digits 8 (48 :: t)))
  | hexadecimal {x : BitVec 8} {t : Text} (hx : x = 120 ∨ x = 88) (hne : t ≠ [])
      (hdigits : ∀ c ∈ t, Text.digitIn 16 c ≠ none) :
      IsNumeral (48 :: x :: t) (Text.value 16 (Text.digits 16 t))

/-- A numeral for an `unsigned long`. -/
structure Literal where
  text : Text
  value : BitVec 64
  numeral : IsNumeral text value.toNat

def ArithOp.char : ArithOp → BitVec 8
  | add => 43
  | sub => 45
  | mul => 42
  | div => 47

structure Chain where
  first : Literal
  rest : Tail Literal

def chainText (a : Literal) : Tail Literal → Text
  | [] => a.text
  | (op, b) :: rest => a.text ++ op.char :: chainText b rest

def values (rest : Tail Literal) : Tail (BitVec 64) := rest.map fun p => (p.1, p.2.value)

namespace Chain

def text (c : Chain) : Text := chainText c.first c.rest
def ops (c : Chain) : List ArithOp := c.rest.map Prod.fst
def usual (c : Chain) : BitVec 64 := Debugger.usual c.first.value (values c.rest)

/-- No divisor is zero. -/
def NoZero (c : Chain) : Prop := Debugger.NoZero (values c.rest)

end Chain

/-! ## Numerals -/

/-- A letter or a digit. -/
def isAlnum (c : BitVec 8) : Bool := (Text.digitValue c).isSome

theorem digitIn_alnum {base : ℕ} {c : BitVec 8} (h : Text.digitIn base c ≠ none) : isAlnum c = true := by
  rw [Text.digitIn] at h
  rw [isAlnum]
  cases hc : Text.digitValue c with
  | none => rw [hc] at h; exact absurd rfl h
  | some d => rfl

theorem IsNumeral.alnum {t : Text} {v : ℕ} (h : IsNumeral t v) : ∀ c ∈ t, isAlnum c = true := by
  cases h with
  | decimal _ _ hdigits => exact fun c hc => digitIn_alnum (hdigits c hc)
  | octal hdigits =>
    exact List.forall_mem_cons.mpr ⟨by decide, fun c hc => digitIn_alnum (hdigits c hc)⟩
  | hexadecimal hx _ hdigits =>
    refine List.forall_mem_cons.mpr ⟨by decide, List.forall_mem_cons.mpr ⟨?_, fun c hc =>
      digitIn_alnum (hdigits c hc)⟩⟩
    rcases hx with rfl | rfl <;> decide

theorem decimal_plain : ∀ c : BitVec 8, Text.digitIn 10 c ≠ none →
    Text.isSpace c = false ∧ c ≠ 43 ∧ c ≠ 45 ∧ c ≠ 36 ∧ c ≠ 38 ∧ Text.isAlpha c = false ∧ c ≠ 95 := by
  decide

/-- A numeral begins with a decimal digit. -/
theorem IsNumeral.front {t : Text} {v : ℕ} (h : IsNumeral t v) :
    ∃ c u, t = c :: u ∧ Text.digitIn 10 c ≠ none := by
  cases h with
  | decimal hne _ hdigits =>
    cases t with
    | nil => exact absurd rfl hne
    | cons c u => exact ⟨c, u, rfl, hdigits c List.mem_cons_self⟩
  | octal _ => exact ⟨48, _, rfl, by decide⟩
  | hexadecimal _ _ _ => exact ⟨48, _, rfl, by decide⟩

/-- The base of a numeral, and its digits. -/
theorem IsNumeral.literal {t : Text} {v : ℕ} (h : IsNumeral t v) :
    (Text.literal 0 t).2 ≠ [] ∧ Text.value (Text.literal 0 t).1 (Text.literal 0 t).2 = v := by
  have hdigits {base : ℕ} {c : BitVec 8} {u : Text} (hc : Text.digitIn base c ≠ none) :
      Text.digits base (c :: u) ≠ [] := by
    obtain ⟨d, hd⟩ := Option.ne_none_iff_exists'.mp hc
    rw [Text.digits, hd]
    exact List.cons_ne_nil _ _
  cases h with
  | decimal hne hzero hall =>
    have hliteral : Text.literal 0 t = (10, Text.digits 10 t) := by
      unfold Text.literal
      split
      · exact absurd rfl hzero
      · exact absurd rfl hzero
      · exact if_pos rfl
    rw [hliteral]
    cases t with
    | nil => exact absurd rfl hne
    | cons c u => exact ⟨hdigits (hall c List.mem_cons_self), rfl⟩
  | @octal t hall =>
    have hliteral : Text.literal 0 (48 :: t) = (8, Text.digits 8 (48 :: t)) := by
      cases t with
      | nil => rfl
      | cons x u =>
        have hx : ¬(x = 120 ∨ x = 88) := by
          have hdigit := hall x List.mem_cons_self
          rintro (rfl | rfl) <;> exact absurd (by decide) hdigit
        exact (if_neg fun h => hx h.1).trans (if_pos rfl)
    rw [hliteral]
    have hzero : Text.digitIn 8 48 ≠ none := by decide
    exact ⟨hdigits hzero, rfl⟩
  | @hexadecimal x t hx hne hall =>
    have hsome : Text.digits 16 t ≠ [] := by
      cases t with
      | nil => exact absurd rfl hne
      | cons c u => exact hdigits (hall c List.mem_cons_self)
    have hliteral : Text.literal 0 (48 :: x :: t) = (16, Text.digits 16 t) :=
      if_pos ⟨hx, .inl rfl, hsome⟩
    rw [hliteral]
    exact ⟨hsome, rfl⟩

theorem IsNumeral.strtoul {t : Text} {v : BitVec 64} (h : IsNumeral t v.toNat) :
    Text.strtoul 0 t = some v := by
  obtain ⟨c, u, rfl, hc⟩ := h.front
  obtain ⟨hspace, hplus, hminus, -⟩ := decimal_plain c hc
  have hskip : Text.skipSpace (c :: u) = c :: u := by
    rw [Text.skipSpace, List.dropWhile_cons_of_neg]
    simp [hspace]
  have hsign : Text.sign (c :: u) = (false, c :: u) := by
    unfold Text.sign
    split
    · rename_i heq
      exact absurd (List.cons.inj heq).1 hplus
    · rename_i heq
      exact absurd (List.cons.inj heq).1 hminus
    · rfl
  obtain ⟨hne, hvalue⟩ := h.literal
  rw [Text.strtoul, hskip, hsign]
  dsimp only
  rw [if_neg hne, hvalue, if_pos v.isLt]
  simp

/-! ## Cutting a chain -/

theorem splitChar_none {c : BitVec 8} {t : Text} (h : c ∉ t) : Text.splitChar c t = none := by
  induction t with
  | nil => rfl
  | cons d t ih =>
    have hd : d ≠ c := fun heq => h (heq ▸ List.mem_cons_self)
    rw [Text.splitChar, if_neg hd, ih fun hc => h (List.mem_cons_of_mem _ hc), Option.map_none]

theorem splitChar_first {c : BitVec 8} {t : Text} (h : c ∉ t) (u : Text) :
    Text.splitChar c (t ++ c :: u) = some (t, u) := by
  induction t with
  | nil => exact if_pos rfl
  | cons d t ih =>
    have hd : d ≠ c := fun heq => h (heq ▸ List.mem_cons_self)
    rw [List.cons_append, Text.splitChar, if_neg hd, ih fun hc => h (List.mem_cons_of_mem _ hc),
      Option.map_some]

theorem splitText_none {c : BitVec 8} {op t : Text} (h : c ∉ t) :
    Text.splitText (c :: op) t = none := by
  induction t with
  | nil => rfl
  | cons d t ih =>
    have hprefix : ¬c :: op <+: d :: t := fun hop =>
      h ((List.cons_prefix_cons.mp hop).1 ▸ List.mem_cons_self)
    rw [Text.splitText, if_neg hprefix, ih fun hc => h (List.mem_cons_of_mem _ hc), Option.map_none]

theorem alnum_plain : ∀ c : BitVec 8, isAlnum c = true → c ≠ 43 ∧ c ≠ 45 ∧ c ≠ 42 ∧ c ≠ 47 ∧
    c ≠ 61 ∧ c ≠ 33 := by
  decide

/-- A byte of a chain is alphanumeric or one of its operators. -/
theorem mem_chainText {a : Literal} {rest : Tail Literal} {c : BitVec 8} (h : c ∈ chainText a rest) :
    isAlnum c = true ∨ ∃ op ∈ rest.map Prod.fst, c = op.char := by
  induction rest generalizing a with
  | nil => exact .inl (a.numeral.alnum c h)
  | cons p rest ih =>
    obtain ⟨op, b⟩ := p
    rcases List.mem_append.mp h with hfirst | hrest
    · exact .inl (a.numeral.alnum c hfirst)
    · rcases List.mem_cons.mp hrest with rfl | hrest
      · exact .inr ⟨op, List.mem_cons_self, rfl⟩
      · refine (ih hrest).imp_right ?_
        rintro ⟨op', hop', rfl⟩
        exact ⟨op', List.mem_cons_of_mem _ hop', rfl⟩

theorem char_notMem {a : Literal} {rest : Tail Literal} {op : ArithOp}
    (h : op ∉ rest.map Prod.fst) : op.char ∉ chainText a rest := by
  intro hmem
  rcases mem_chainText hmem with halnum | ⟨op', hop', heq⟩
  · obtain ⟨h1, h2, h3, h4, -⟩ := alnum_plain _ halnum
    cases op
    · exact h1 rfl
    · exact h2 rfl
    · exact h3 rfl
    · exact h4 rfl
  · have hsame : op = op' := by
      cases op <;> cases op' <;> first | rfl | exact absurd heq (by decide)
    exact h (hsame ▸ hop')

theorem comparison_notMem {a : Literal} {rest : Tail Literal} {c : BitVec 8} (hc : c = 61 ∨ c = 33) :
    c ∉ chainText a rest := by
  intro hmem
  rcases mem_chainText hmem with halnum | ⟨op, -, heq⟩
  · obtain ⟨-, -, -, -, h61, h33⟩ := alnum_plain _ halnum
    exact hc.elim h61 h33
  · rcases hc with rfl | rfl <;> cases op <;> exact absurd heq (by decide)

theorem chainText_append (a : Literal) (pre : Tail Literal) (op : ArithOp) (b : Literal)
    (post : Tail Literal) :
    chainText a (pre ++ (op, b) :: post) = chainText a pre ++ op.char :: chainText b post := by
  induction pre generalizing a with
  | nil => rfl
  | cons p pre ih => simp only [List.cons_append, chainText, ih, List.append_assoc]

theorem chainText_ne_nil (a : Literal) (rest : Tail Literal) : chainText a rest ≠ [] := by
  obtain ⟨c, u, htext, -⟩ := a.numeral.front
  cases rest <;> simp [chainText, htext]

/-- A chain is cut at the first occurrence of an operator. -/
theorem binarySides_chain (a b : Literal) {pre : Tail Literal} (post : Tail Literal) {op : ArithOp}
    (h : op ∉ pre.map Prod.fst) :
    binarySides op.char (chainText a (pre ++ (op, b) :: post)) =
      some (chainText a pre, chainText b post) := by
  rw [binarySides, chainText_append, splitChar_first (char_notMem h), Option.filter_some_pos]
  simpa using chainText_ne_nil a pre

theorem binarySides_none {a : Literal} {rest : Tail Literal} {op : ArithOp}
    (h : op ∉ rest.map Prod.fst) : binarySides op.char (chainText a rest) = none := by
  rw [binarySides, splitChar_none (char_notMem h), Option.filter_none]

theorem cut_first {op : ArithOp} {rest : Tail Literal} (h : op ∈ rest.map Prod.fst) :
    ∃ pre b post, rest = pre ++ (op, b) :: post ∧ op ∉ pre.map Prod.fst := by
  induction rest with
  | nil => exact absurd h List.not_mem_nil
  | cons p rest ih =>
    obtain ⟨op', c⟩ := p
    by_cases hop : op = op'
    · subst hop
      exact ⟨[], c, rest, rfl, List.not_mem_nil⟩
    · obtain ⟨pre, b, post, rfl, hpre⟩ := ih ((List.mem_cons.mp h).resolve_left hop)
      refine ⟨(op', c) :: pre, b, post, rfl, ?_⟩
      simp [hop, hpre]

/-! ## The tree of a chain -/

def ArithOp.binary : ArithOp → Binary
  | add => .add
  | sub => .sub
  | mul => .mul
  | div => .div

/-- The order in which `eval` looks for the operators. -/
def ArithOp.rank : ArithOp → ℕ
  | add => 0
  | sub => 1
  | mul => 2
  | div => 3

section Tree
variable {a b : Literal} {rest pre post : Tail Literal} {op : ArithOp}

theorem exprBody_chain (tree : Text → Expr) (a : Literal) (rest : Tail Literal) :
    exprBody tree (chainText a rest) =
      match binarySides ArithOp.add.char (chainText a rest) with
      | some (x, y) => .binary .add (tree x) (tree y)
      | none =>
      match binarySides ArithOp.sub.char (chainText a rest) with
      | some (x, y) => .binary .sub (tree x) (tree y)
      | none =>
      match binarySides ArithOp.mul.char (chainText a rest) with
      | some (x, y) => .binary .mul (tree x) (tree y)
      | none =>
      match binarySides ArithOp.div.char (chainText a rest) with
      | some (x, y) => .binary .div (tree x) (tree y)
      | none => primaryTree tree (chainText a rest) := by
  have hequal : Text.splitText (Text.ofString "==") (chainText a rest) = none :=
    splitText_none (comparison_notMem (.inl rfl))
  have hdiffer : Text.splitText (Text.ofString "!=") (chainText a rest) = none :=
    splitText_none (comparison_notMem (.inr rfl))
  have hassign : Text.splitChar 61 (chainText a rest) = none :=
    splitChar_none (comparison_notMem (.inl rfl))
  rw [exprBody, hequal, hdiffer, hassign]
  rfl

/-- The operator of the lowest rank is at the root. -/
theorem exprOf_cut (hpre : op ∉ pre.map Prod.fst)
    (hrank : ∀ op' ∈ (pre ++ (op, b) :: post).map Prod.fst, op.rank ≤ op'.rank) :
    exprOf (chainText a (pre ++ (op, b) :: post)) =
      .binary op.binary (exprOf (chainText a pre)) (exprOf (chainText b post)) := by
  have hnone (op' : ArithOp) (hop' : op'.rank < op.rank) :
      binarySides op'.char (chainText a (pre ++ (op, b) :: post)) = none :=
    binarySides_none fun hmem => absurd (hrank op' hmem) (Nat.not_le.mpr hop')
  have hsides := binarySides_chain a b post hpre
  rw [exprOf_eq, exprBody_chain]
  cases op with
  | add =>
    rw [hsides]
    rfl
  | sub =>
    rw [hnone .add (by decide), hsides]
    rfl
  | mul =>
    rw [hnone .add (by decide), hnone .sub (by decide), hsides]
    rfl
  | div =>
    rw [hnone .add (by decide), hnone .sub (by decide), hnone .mul (by decide), hsides]
    rfl

/-- A numeral alone. -/
theorem exprOf_literal (a : Literal) : exprOf a.text = .leaf (.literal a.value) := by
  obtain ⟨c, u, htext, hc⟩ := a.numeral.front
  obtain ⟨-, -, -, hdollar, hplace, halpha, hunder⟩ := decimal_plain c hc
  have hname : startsName a.text = false := by
    rw [htext, startsName, halpha, Bool.false_or]
    exact beq_false_of_ne hunder
  have hnone (op : ArithOp) : binarySides op.char (chainText a []) = none :=
    binarySides_none List.not_mem_nil
  have hbody := exprBody_chain exprOf a []
  rw [hnone, hnone, hnone, hnone] at hbody
  rw [exprOf_eq]
  refine hbody.trans ?_
  rw [chainText, primaryTree_plain, hname, a.numeral.strtoul]
  · rfl
  · intro t heq
    rw [htext] at heq
    exact hdollar (List.cons.inj heq).1
  · intro t heq
    rw [htext] at heq
    exact hplace (List.cons.inj heq).1

end Tree

/-! ## The group of a chain -/

/-- Put the group behind an operator into the one in front of it. -/
def Group.put (op : ArithOp) (h g : Group) : Group :=
  match op with
  | .add => { g with sum := h.value }
  | .sub => { g with
      difference := h.quotient * h.product - h.difference
      sum := h.sum }
  | _ => { h with
      quotient := g.quotient
      product := h.quotient * h.product }

section Group
variable {a b : BitVec 64} {rest pre post : Tail (BitVec 64)} {op : ArithOp} {g h : Group}

/-- Operators that bind tighter do not see what is behind. -/
theorem Group.push_put {op' : ArithOp} (hop : op.rank < op'.rank) :
    (Group.put op h g).push a op' = (g.push a op').map (Group.put op h) := by
  cases op' with
  | div =>
    have hquotient : (Group.put op h g).quotient = g.quotient := by cases op <;> rfl
    rw [Group.push, Group.push, hquotient]
    split
    · rfl
    · cases op <;> rfl
  | _ => cases op <;> first | rfl | exact absurd hop (by decide)

theorem group_cut (hop : op ≠ .div) (hpre : ∀ op' ∈ pre.map Prod.fst, op.rank < op'.rank) :
    group a (pre ++ (op, b) :: post) =
      (group a pre).bind fun g => (group b post).map fun h => Group.put op h g := by
  induction pre generalizing a with
  | nil =>
    rw [List.nil_append, group, group]
    cases op with
    | div => exact absurd rfl hop
    | _ => cases group b post <;> rfl
  | cons p pre ih =>
    obtain ⟨op', c⟩ := p
    obtain ⟨hfirst, hrest⟩ := List.forall_mem_cons.mp hpre
    rw [List.cons_append, group, ih hrest, group]
    cases group c pre with
    | none => rfl
    | some g =>
      cases group b post with
      | none => cases hpush : g.push a op' <;> simp [hpush]
      | some h =>
        have hput := Group.push_put (a := a) (h := h) (g := g) hfirst
        cases hpush : g.push a op' <;> simpa [hpush] using hput

/-- A chain of operators of higher ranks has neither sums nor the like. -/
theorem group_plain {n : ℕ} (hrank : ∀ op ∈ rest.map Prod.fst, n < op.rank)
    (hg : group a rest = some g) :
    g.sum = 0 ∧ (1 ≤ n → g.difference = 0) ∧ (2 ≤ n → g.product = 1) := by
  induction rest generalizing a g with
  | nil =>
    cases hg
    exact ⟨rfl, fun _ => rfl, fun _ => rfl⟩
  | cons p rest ih =>
    obtain ⟨op, b⟩ := p
    obtain ⟨hfirst, hrest⟩ := List.forall_mem_cons.mp hrank
    obtain ⟨h, hh, hpush⟩ := Option.bind_eq_some_iff.mp hg
    obtain ⟨hsum, hdifference, hproduct⟩ := ih hrest hh
    cases op with
    | add => exact absurd hfirst (Nat.not_lt_zero n)
    | sub =>
      cases hpush
      have hn : n < 1 := hfirst
      exact ⟨hsum, fun h => absurd h (by omega), fun h => absurd h (by omega)⟩
    | mul =>
      cases hpush
      have hn : n < 2 := hfirst
      exact ⟨hsum, hdifference, fun h => absurd h (by omega)⟩
    | div =>
      rw [Group.push] at hpush
      split at hpush
      · cases hpush
      · cases hpush
        exact ⟨hsum, hdifference, hproduct⟩

/-- What `op` does to the values of its sides. -/
def ArithOp.apply (v w : BitVec 64) : ArithOp → Option (BitVec 64)
  | add => some (v + w)
  | sub => some (v - w)
  | mul => some (v * w)
  | div => if w = 0 then none else some (v / w)

/-- The value of a chain, from the values of its sides. -/
theorem group_value (hpre : ∀ op' ∈ pre.map Prod.fst, op.rank < op'.rank)
    (hpost : ∀ op' ∈ post.map Prod.fst, op.rank ≤ op'.rank) :
    (group a (pre ++ (op, b) :: post)).map Group.value =
      ((group a pre).map Group.value).bind fun v =>
        ((group b post).map Group.value).bind fun w => op.apply v w := by
  have hrank {n : ℕ} (hn : n < op.rank) : ∀ op' ∈ post.map Prod.fst, n < op'.rank :=
    fun op' hop' => hn.trans_le (hpost op' hop')
  by_cases hdiv : op = .div
  · subst hdiv
    cases pre with
    | cons p pre => 
      have hfirst : 3 < p.1.rank := hpre p.1 List.mem_cons_self
      cases hp : p.1 <;> rw [hp] at hfirst <;> exact absurd hfirst (by decide)
    | nil =>
      rw [List.nil_append, group, group]
      cases hh : group b post with
      | none => rfl
      | some h =>
        obtain ⟨hsum, hdifference, hproduct⟩ := group_plain (hrank (n := 2) (by decide)) hh
        have hvalue : h.value = h.quotient := by
          simp [Group.value, hsum, hdifference (by decide), hproduct (by decide)]
        simp only [Option.bind_some, Option.map_some, Group.push, ArithOp.apply, hvalue]
        split
        · rfl
        · simp [Group.value, hsum, hdifference (by decide), hproduct (by decide)]
  · rw [group_cut hdiv hpre]
    cases hg : group a pre with
    | none => rfl
    | some g =>
      obtain ⟨hsum, hdifference, hproduct⟩ := group_plain hpre hg
      cases hh : group b post with
      | none => rfl
      | some h =>
        simp only [Option.bind_some, Option.map_some]
        cases op with
        | add => simp [Group.put, Group.value, ArithOp.apply, hsum]
        | sub =>
          obtain ⟨hsum', -, -⟩ := group_plain (hrank (n := 0) (by decide)) hh
          simp [Group.put, Group.value, ArithOp.apply, hsum, hsum', hdifference (by decide)]
        | mul =>
          obtain ⟨hsum', hdifference', -⟩ := group_plain (hrank (n := 1) (by decide)) hh
          simp [Group.put, Group.value, ArithOp.apply, hsum, hsum', hdifference (by decide),
            hproduct (by decide), hdifference' (by decide)]
        | div => exact absurd rfl hdiv

end Group

/-! ## The evaluation of a chain -/

/-- A value, or a division by zero, and the session as it was. -/
def outcome {τ : Type} (s : Session τ) :
    Option (BitVec 64) → EStateM.Result Crash (Session τ) (BitVec 64)
  | some v => .ok v s
  | none => .error .divisionByZero s

section Run
variable {τ : Type} [Target τ]

theorem Expr.run_binary {x y : Expr} {s : Session τ} {o o' : Option (BitVec 64)} {op : ArithOp}
    (hx : x.run s = outcome s o) (hy : y.run s = outcome s o') :
    (Expr.binary op.binary x y).run s =
      outcome s (o.bind fun v => o'.bind fun w => op.apply v w) := by
  rw [Expr.run]
  cases o with
  | none => exact run_bind_error hx
  | some v =>
    rw [run_bind_ok hx]
    cases o' with
    | none => exact run_bind_error hy
    | some w =>
      rw [run_bind_ok hy]
      cases op with
      | div =>
        simp only [ArithOp.binary, Binary.apply, divide, Option.bind_some, ArithOp.apply]
        split <;> rfl
      | _ => rfl

theorem values_append (pre post : Tail Literal) :
    values (pre ++ post) = values pre ++ values post := List.map_append

theorem values_ops (rest : Tail Literal) : (values rest).map Prod.fst = rest.map Prod.fst := by
  rw [values, List.map_map]
  rfl

/-- A chain of operators, of which one has the lowest rank. -/
theorem exists_cut (rest : Tail Literal) : rest = [] ∨ ∃ pre op b post,
    rest = pre ++ (op, b) :: post ∧ (∀ op' ∈ pre.map Prod.fst, op.rank < op'.rank) ∧
      ∀ op' ∈ post.map Prod.fst, op.rank ≤ op'.rank := by
  by_cases hne : rest = []
  · exact .inl hne
  · have hnonempty : (rest.map Prod.fst).toFinset.Nonempty := by
      obtain ⟨p, hp⟩ := List.exists_mem_of_ne_nil rest hne
      exact ⟨p.1, List.mem_toFinset.mpr (List.mem_map_of_mem hp)⟩
    obtain ⟨op, hop, hmin⟩ := Finset.exists_min_image _ ArithOp.rank hnonempty
    obtain ⟨pre, b, post, rfl, hpre⟩ := cut_first (List.mem_toFinset.mp hop)
    have hle : ∀ op' ∈ (pre ++ (op, b) :: post).map Prod.fst, op.rank ≤ op'.rank :=
      fun op' hop' => hmin op' (List.mem_toFinset.mpr hop')
    rw [List.map_append, List.forall_mem_append, List.map_cons, List.forall_mem_cons] at hle
    refine .inr ⟨pre, op, b, post, rfl, fun op' hop' => ?_, hle.2.2⟩
    refine Nat.lt_of_le_of_ne (hle.1 op' hop') fun heq => ?_
    have hsame : op = op' := by
      cases op <;> cases op' <;> first | rfl | exact absurd heq (by decide)
    exact hpre (hsame ▸ hop')

/-- By induction on the length of the chain. -/
theorem run_chain (s : Session τ) (a : Literal) (rest : Tail Literal) :
    (exprOf (chainText a rest)).run s =
      outcome s ((group a.value (values rest)).map Group.value) := by
  induction hn : rest.length using Nat.strong_induction_on generalizing a rest with
  | _ n ih =>
    rcases exists_cut rest with rfl | ⟨pre, op, b, post, rfl, hpre, hpost⟩
    · rw [chainText, exprOf_literal]
      simp [values, group, Group.value, outcome, Expr.run, Leaf.run]
    · have hfirst : op ∉ pre.map Prod.fst := fun hmem => absurd (hpre op hmem) (Nat.lt_irrefl _)
      rw [List.length_append, List.length_cons] at hn
      have hall : ∀ op' ∈ (pre ++ (op, b) :: post).map Prod.fst, op.rank ≤ op'.rank := by
        rw [List.map_append, List.forall_mem_append, List.map_cons, List.forall_mem_cons]
        exact ⟨fun op' hop' => (hpre op' hop').le, le_rfl, hpost⟩
      rw [exprOf_cut hfirst hall, Expr.run_binary (ih pre.length (by omega) a pre rfl)
        (ih post.length (by omega) b post rfl), values_append]
      rw [← values_ops] at hpre hpost
      exact congrArg (outcome s) (group_value hpre hpost).symm

end Run

/-! ## The usual value -/

/-- The numerals 0, 1 and 2. -/
def smallLiteral : ℕ → Literal
  | 0 => ⟨[48], 0, .octal (by simp)⟩
  | 1 => ⟨[49], 1, .decimal (by decide) (by decide) (by decide)⟩
  | _ => ⟨[50], 2, .decimal (by decide) (by decide) (by decide)⟩

theorem smallLiteral_value {v : BitVec 64} (h : v ∈ [0, 1, 2]) : (smallLiteral v.toNat).value = v := by
  simp only [List.mem_cons, List.not_mem_nil, or_false] at h
  rcases h with rfl | rfl | rfl <;> rfl

theorem values_small {ops : List ArithOp} {rest : Tail (BitVec 64)} (h : Operands ops rest) :
    values (rest.map fun p => (p.1, smallLiteral p.2.toNat)) = rest := by
  rw [values, List.map_map]
  refine (List.map_congr_left fun p hp => ?_).trans rest.map_id
  exact Prod.ext rfl (smallLiteral_value (h.small p hp))

/-- For a sequence of operators, `eval` has the usual value with all operands exactly if there is
one `-` at most between two `+`, and every `/` is the first operator of its term. -/
theorem eval_usual_iff {τ : Type} [Target τ] (s : Session τ) (ops : List ArithOp) :
    (∀ c : Chain, c.ops = ops → c.NoZero → ∃ left, eval c.text s = .ok (c.usual, left) s) ↔
      OneMinus false ops ∧ LeadingSlash true ops := by
  constructor
  · intro h
    by_contra hshape
    obtain ⟨a, rest, ha, hrest, hdiffers⟩ := group_differs hshape
    let c : Chain :=
      ⟨smallLiteral a.toNat, rest.map fun p => (p.1, smallLiteral p.2.toNat)⟩
    have hvalues : values c.rest = rest := values_small hrest
    have hfirst : c.first.value = a := smallLiteral_value ha
    have hops : c.ops = ops := by rw [Chain.ops, ← values_ops, hvalues, hrest.ops]
    obtain ⟨left, heval⟩ := h c hops (by rw [Chain.NoZero, hvalues]; exact hrest.noZero)
    obtain ⟨left', hruns⟩ := eval_runs (τ := τ) c.text
    have hrun := run_chain s c.first c.rest
    rw [hvalues, hfirst] at hrun
    refine hdiffers ?_
    rw [Chain.usual, hvalues, hfirst, hruns] at heval
    cases hgroup : (group a rest).map Group.value with
    | none =>
      rw [hgroup] at hrun
      rw [Chain.text, run_bind_error hrun] at heval
      cases heval
    | some v =>
      rw [hgroup] at hrun
      rw [Chain.text, run_bind_ok hrun] at heval
      cases heval
      rfl
  · rintro ⟨hminus, hslash⟩ c rfl hzero
    obtain ⟨left, hruns⟩ := eval_runs (τ := τ) c.text
    have hrun := run_chain s c.first c.rest
    rw [Chain.ops, ← values_ops] at hminus hslash
    rw [group_usual hminus hslash hzero] at hrun
    exact ⟨left, by rw [hruns, Chain.text, run_bind_ok hrun]; rfl⟩

/-- `print 10-2-3`. -/
theorem minus_right : ¬∀ (c : Chain) (s : Session FlatTarget), c.NoZero →
    ∃ left, eval c.text s = .ok (c.usual, left) s := by
  intro h
  let c : Chain := ⟨⟨Text.ofString "10", 10, .decimal (by decide) (by decide) (by decide)⟩,
    [(.sub, ⟨Text.ofString "2", 2, .decimal (by decide) (by decide) (by decide)⟩),
      (.sub, ⟨Text.ofString "3", 3, .decimal (by decide) (by decide) (by decide)⟩)]⟩
  let s : Session FlatTarget := ⟨⟨0, fun _ => 0⟩, 0, fun _ => 0, 0, 0⟩
  have heleven : eval c.text s = .ok (11, Text.ofString "10") s := rfl
  have hfive : c.usual = 5 := by decide
  obtain ⟨left, heval⟩ := h c s (fun p hp => by rcases List.mem_pair.mp hp with rfl | rfl <;> decide)
  rw [heleven, hfive] at heval
  simp at heval

end Exec09.Debugger
